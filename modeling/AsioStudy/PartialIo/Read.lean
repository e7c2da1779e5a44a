import AsioStudy.PartialIo.Model

/-!
# AsioStudy.PartialIo.Read

`sync_read::readFromSocket`, `sync_read::readFromSocketEnhanced` and the callback chain of
`async_read::readFromSocket`, on a socket at which a stream arrives.

A `Schedule` divides the stream into reads; a read after its last byte fails. All three
programs go through the parts of one transfer: the buffer holds the part of the stream
before the count, and the rest is unread (`read_some_parts`).
-/

namespace AsioStudy.PartialIo

/-- A `char` array of `n` elements. No object is larger than a `std::size_t` can tell. -/
structure CharArray (P : Platform) (n : Nat) where
  cells : Bytes
  length_cells : cells.length = n
  fits : n ≤ P.SIZE_MAX

variable {P : Platform} {n : Nat}

/-- Store `data` from `offset` on; what would be outside the array is left out. -/
def CharArray.store (buf : CharArray P n) (offset : Nat) (data : Bytes) : CharArray P n where
  cells := buf.cells.take offset ++ data.take (n - offset) ++ buf.cells.drop (offset + data.length)
  length_cells := by
    have hlen := buf.length_cells
    simp only [List.length_append, List.length_take, List.length_drop]
    omega
  fits := buf.fits

/-- The socket as a reader sees it. -/
structure ReadSocket where
  schedule : Schedule
  /-- The bytes that have not been read. -/
  unread : Bytes
  /-- What a read after the last byte fails with. -/
  ended : ErrorCode
  ended_value : ended.value ≠ 0
  /-- The reads so far. -/
  log : List (Part ErrorCode)

/-- A socket at which `stream` arrives. -/
def ReadSocket.new (schedule : Schedule) (stream : Bytes) (ended : ErrorCode)
    (h : ended.value ≠ 0) : ReadSocket :=
  ⟨schedule, stream, ended, h, []⟩

/-- `read_some` into a range of an array. -/
def read_some : Io (ReadSocket × CharArray P n) ErrorCode := fun (sock, buf) r =>
  let result :=
    if sock.unread = [] then .error sock.ended
    else sock.schedule.result sock.log.length (min r.length sock.unread.length)
  let data :=
    match result with
    | .ok m => sock.unread.take m
    | .error _ => []
  (result, { sock with unread := sock.unread.drop data.length, log := sock.log ++ [⟨r, result⟩] },
    buf.store r.offset data)

namespace SyncRead

def MESSAGE_SIZE : UInt8 := 7

/-- `sync_read::readFromSocket`; `buf` is the array on its stack. An exception leaves it as
an error. -/
def readFromSocket (sock : ReadSocket) (buf : CharArray P MESSAGE_SIZE.toNat) :
    Option (Except ErrorCode Bytes × ReadSocket) :=
  match transfer_loop P read_some MESSAGE_SIZE.toNat (MESSAGE_SIZE.toNat + 1) 0 (sock, buf) with
  | none => none
  | some (some ec, _, sock, _) => some (.error ec, sock)
  | some (none, total_bytes_read, sock, buf) => some (.ok (buf.cells.take total_bytes_read), sock)

/-- `sync_read::readFromSocketEnhanced` -/
def readFromSocketEnhanced (sock : ReadSocket) (buf : CharArray P MESSAGE_SIZE.toNat) :
    Option (Except ErrorCode Bytes × ReadSocket) :=
  match asio_transfer read_some (MESSAGE_SIZE.toNat + 1) ⟨0, MESSAGE_SIZE.toNat⟩ (sock, buf) with
  | none => none
  | some (some ec, sock, _) => some (.error ec, sock)
  | some (none, sock, buf) => some (.ok (buf.cells.take MESSAGE_SIZE.toNat), sock)

end SyncRead

namespace AsyncRead

/-- `async_read::Session` -/
structure Session (P : Platform) where
  sock : ReadSocket
  buf_size : UInt32
  buf : CharArray P buf_size.toNat
  total_bytes_read : Nat

/-- `async_read::callback`: the session, and the range of the read it starts. -/
def callback (ec : ErrorCode) (bytes_transferred : Nat) (s : Session P) :
    Session P × Option Range :=
  let (total_bytes_read, next) :=
    counting_callback P s.buf_size.toNat ec bytes_transferred s.total_bytes_read
  ({ s with total_bytes_read := total_bytes_read }, next)

def MESSAGE_SIZE : UInt32 := 7

/-- The session and the range of its first read. -/
def Session.start (s : Session P) : Session P × Range := (s, ⟨0, s.buf_size.toNat⟩)

/-- `async_read::readFromSocket` -/
def readFromSocket (sock : ReadSocket) (buf : CharArray P MESSAGE_SIZE.toNat) :
    Session P × Range :=
  Session.start ⟨sock, MESSAGE_SIZE, buf, 0⟩

/-- The pending read is completed. -/
def async_read_some : Io (Session P) ErrorCode := fun s r =>
  let (result, sock, buf) := read_some (s.sock, s.buf) r
  (result, { s with sock := sock, buf := buf })

/-- The first read of a session and the callbacks after it. -/
def run : Session P × Range → Option (Session P)
  | (s, first) => run_handlers async_read_some callback (s.buf_size.toNat + 1) first s

end AsyncRead

/-! ### One read -/

variable {sock : ReadSocket} {buf : CharArray P n} {st st' : ReadSocket × CharArray P n}
  {r : Range} {m total : Nat} {ec : ErrorCode} {stream : Bytes} {parts : List (Part ErrorCode)}
  {failure : Option ErrorCode}

/-- A read that succeeds takes bytes that are there. -/
theorem read_some_ok (h : read_some st r = (.ok m, st')) :
    st.1.unread ≠ [] ∧
      st.1.schedule.result st.1.log.length (min r.length st.1.unread.length) = .ok m ∧
      st'.1.unread = st.1.unread.drop m ∧ st'.2 = st.2.store r.offset (st.1.unread.take m) := by
  obtain ⟨hresult, rfl⟩ := Prod.mk.inj h
  by_cases hnil : st.1.unread = []
  · simp [hnil] at hresult
  · rw [if_neg hnil] at hresult
    have hle : m ≤ st.1.unread.length :=
      Nat.le_trans (st.1.schedule.le hresult) (Nat.min_le_right _ _)
    refine ⟨hnil, hresult, ?_, ?_⟩
    · simp only [hnil, if_false, hresult, List.length_take, Nat.min_eq_left hle]
    · simp only [hnil, if_false, hresult]

/-- A read that fails takes nothing, and fails with an error. -/
theorem read_some_error (h : read_some st r = (.error ec, st')) :
    ec.value ≠ 0 ∧ st'.1.unread = st.1.unread ∧ st'.2 = st.2.store r.offset [] := by
  obtain ⟨hresult, rfl⟩ := Prod.mk.inj h
  by_cases hnil : st.1.unread = []
  · rw [if_pos hnil] at hresult
    obtain rfl := Except.error.inj hresult
    exact ⟨st.1.ended_value, by simp [hnil], by simp [hnil]⟩
  · rw [if_neg hnil] at hresult
    exact ⟨st.1.schedule.failure hresult, by simp [hnil, hresult], by simp [hnil, hresult]⟩

theorem read_some_bounded : Bounded (read_some : Io (ReadSocket × CharArray P n) ErrorCode) where
  pos := by
    intro st st' r m hr h
    obtain ⟨hnil, hresult, -, -⟩ := read_some_ok h
    have hlen : 0 < st.1.unread.length := List.length_pos_iff.mpr hnil
    exact st.1.schedule.pos (Nat.lt_min.mpr ⟨hr, hlen⟩) hresult
  le := by
    intro st st' r m h
    exact Nat.le_trans (st.1.schedule.le (read_some_ok h).2.1) (Nat.min_le_left _ _)

/-! ### One transfer -/

theorem store_nil (buf : CharArray P n) (offset : Nat) :
    (buf.store offset []).cells = buf.cells := by
  simp [CharArray.store]

/-- What is stored at the end of a part of the array continues it. -/
theorem take_store (buf : CharArray P n) {data : Bytes} (hle : total + data.length ≤ n) :
    (buf.store total data).cells.take (total + data.length) = buf.cells.take total ++ data := by
  have hdata : data.take (n - total) = data := List.take_of_length_le (by omega)
  have hlen : (buf.cells.take total ++ data).length = total + data.length := by
    have hcells := buf.length_cells
    simp only [List.length_append, List.length_take]
    omega
  show (buf.cells.take total ++ data.take (n - total) ++ _).take _ = _
  rw [hdata, ← hlen, List.take_left]

/-- The first `total` bytes of the stream are in the buffer, the others are unread. -/
structure Filled (stream : Bytes) (total : Nat) (st : ReadSocket × CharArray P n) : Prop where
  unread : st.1.unread = stream.drop total
  cells : st.2.cells.take total = stream.take total
  le : total ≤ stream.length

theorem Filled.ok (h : Filled stream total st) (hlt : total < n)
    (hio : read_some st ⟨total, n - total⟩ = (.ok m, st')) : Filled stream (total + m) st' := by
  obtain ⟨-, hresult, hunread, hbuf⟩ := read_some_ok hio
  have hrange : m ≤ n - total :=
    Nat.le_trans (st.1.schedule.le hresult) (Nat.min_le_left (n - total) _)
  have hlen : st.1.unread.length = stream.length - total := by rw [h.unread, List.length_drop]
  have hm : m ≤ st.1.unread.length :=
    Nat.le_trans (st.1.schedule.le hresult) (Nat.min_le_right (n - total) _)
  have hle := h.le
  have hdata : (st.1.unread.take m).length = m := by
    rw [List.length_take, Nat.min_eq_left hm]
  refine ⟨?_, ?_, by omega⟩
  · rw [hunread, h.unread, List.drop_drop]
  · have hfit : total + (st.1.unread.take m).length ≤ n := by rw [hdata]; omega
    have hstore := take_store st.2 hfit
    rw [hdata] at hstore
    rw [hbuf, hstore, h.cells, h.unread, ← List.take_add]

theorem Filled.error (h : Filled stream total st)
    (hio : read_some st r = (.error ec, st')) : Filled stream total st' := by
  obtain ⟨-, hunread, hbuf⟩ := read_some_error hio
  exact ⟨hunread.trans h.unread, by rw [hbuf, store_nil, h.cells], h.le⟩

/-- **The buffer holds the stream up to the count, and the rest is unread.** -/
theorem read_some_parts (h : Parts read_some n st 0 parts st' failure)
    (hstream : st.1.unread = stream) :
    (failure = none → Filled stream n st') ∧
      ∀ e, failure = some e → ∃ k, k < n ∧ Filled stream k st' := by
  refine h.invariant (I := Filled stream) (J := Filled stream) ?_ ?_ ?_
  · intro st st' total m hlt hI hio
    exact hI.ok hlt hio
  · intro st st' total e _ hI hio
    exact hI.error hio
  · exact ⟨hstream, rfl, Nat.zero_le _⟩

/-! ### The message -/

/-- The message of a session: what its buffer holds when the count has reached its size. -/
def AsyncRead.Session.message (s : AsyncRead.Session P) : Option Bytes :=
  if s.total_bytes_read = s.buf_size.toNat then some s.buf.cells else none

/-- How reading a message of `size` bytes leaves a socket at which `stream` arrives. -/
structure ReadsMessage (stream : Bytes) (size : Nat) (message : Option Bytes)
    (sock : ReadSocket) : Prop where
  /-- Every range is in the buffer. -/
  inside : ∀ p ∈ sock.log, p.offset + p.length ≤ size
  /-- No read comes after one that has failed. -/
  last : ∀ pre p post, sock.log = pre ++ p :: post → p.Failed → post = []
  /-- There is a message unless a read has failed. -/
  complete : message.isSome = true ↔ ∀ p ∈ sock.log, ¬ p.Failed
  /-- It is the beginning of the stream, and the rest is unread. -/
  whole : ∀ text, message = some text →
    text = stream.take size ∧ text.length = size ∧ sock.unread = stream.drop size

theorem readsMessage_of_parts {message : Option Bytes}
    (h : Parts read_some n st 0 parts st' failure)
    (hstream : st.1.unread = stream) (hlog : st.1.log = [])
    (hmessage : message = if failure = none then some st'.2.cells else none) :
    ReadsMessage stream n message st'.1 := by
  have hparts : st'.1.log = parts := by
    rw [h.log (fun st => st.1.log) fun _ _ => rfl, hlog, List.nil_append]
  refine ⟨hparts ▸ h.inside, ?_, ?_, ?_⟩
  · intro pre p post hp
    exact h.last (hparts ▸ hp)
  · rw [hparts, ← h.failure_eq_none_iff, hmessage]
    split <;> simp_all
  · intro text htext
    rw [hmessage] at htext
    split at htext
    · next hnone =>
      obtain rfl := Option.some.inj htext
      have hfilled := (read_some_parts h hstream).1 hnone
      have hcells : st'.2.cells.take n = st'.2.cells :=
        List.take_of_length_le (Nat.le_of_eq st'.2.length_cells)
      exact ⟨hcells.symm.trans hfilled.cells, st'.2.length_cells, hfilled.unread⟩
    · exact absurd htext (by simp)

/-- The programs that read synchronously return what the transfer has left. -/
theorem SyncRead.readFromSocket_parts {buf buf' : CharArray P MESSAGE_SIZE.toNat}
    {sock' : ReadSocket}
    (h : Parts read_some MESSAGE_SIZE.toNat (sock, buf) 0 parts (sock', buf') failure) :
    ∃ result, readFromSocket sock buf = some (result, sock') ∧
      readFromSocketEnhanced sock buf = some (result, sock') ∧
      result.toOption = if failure = none then some buf'.cells else none := by
  have hfuel : MESSAGE_SIZE.toNat - 0 < MESSAGE_SIZE.toNat + 1 := by decide
  obtain ⟨total, hloop, htotal⟩ := transfer_loop_parts read_some_bounded buf.fits h
    (Nat.zero_le _) hfuel
  have hwhole := asio_transfer_parts read_some_bounded h (Nat.zero_le _) hfuel
  have hcells : buf'.cells.take MESSAGE_SIZE.toNat = buf'.cells :=
    List.take_of_length_le (Nat.le_of_eq buf'.length_cells)
  rw [Nat.sub_zero] at hwhole
  cases hf : failure with
  | none =>
      rw [hf] at hloop hwhole
      refine ⟨.ok buf'.cells, ?_, ?_, rfl⟩
      · simp only [readFromSocket, hloop, htotal hf, hcells]
      · simp only [readFromSocketEnhanced, hwhole, hcells]
  | some ec =>
      rw [hf] at hloop hwhole
      refine ⟨.error ec, ?_, ?_, rfl⟩
      · simp only [readFromSocket, hloop]
      · simp only [readFromSocketEnhanced, hwhole]

theorem AsyncRead.counting (P : Platform) (buf_size : UInt32) :
    Counting P read_some buf_size.toNat AsyncRead.async_read_some AsyncRead.callback
      fun (st : ReadSocket × CharArray P buf_size.toNat) total =>
        ⟨st.1, buf_size, st.2, total⟩ where
  io_mk := fun _ _ _ => rfl
  callback_mk := fun _ _ _ _ => rfl
  error := by
    intro st r ec h
    have hread : read_some st r = (.error ec, (read_some st r).2) := Prod.ext h rfl
    exact (read_some_error hread).1

/-- **Partial reads agree with a whole read.** -/
theorem partial_reads (P : Platform) (schedule : Schedule) (stream : Bytes) (ended : ErrorCode)
    (hended : ended.value ≠ 0) :
    (∀ buf : CharArray P SyncRead.MESSAGE_SIZE.toNat, ∃ result sock,
      SyncRead.readFromSocket (.new schedule stream ended hended) buf = some (result, sock) ∧
      SyncRead.readFromSocketEnhanced (.new schedule stream ended hended) buf =
        some (result, sock) ∧
      ReadsMessage stream SyncRead.MESSAGE_SIZE.toNat result.toOption sock) ∧
    (∀ (buf_size : UInt32) (buf : CharArray P buf_size.toNat), 0 < buf_size →
      ∃ sock buf' total failure,
        AsyncRead.run (AsyncRead.Session.start
          ⟨.new schedule stream ended hended, buf_size, buf, 0⟩) =
          some ⟨sock, buf_size, buf', total⟩ ∧
        asio_transfer read_some (buf_size.toNat + 1) ⟨0, buf_size.toNat⟩
          (.new schedule stream ended hended, buf) = some (failure, sock, buf') ∧
        ReadsMessage stream buf_size.toNat
          (AsyncRead.Session.message ⟨sock, buf_size, buf', total⟩) sock) := by
  constructor
  · intro buf
    obtain ⟨parts, ⟨sock, buf'⟩, failure, hparts⟩ := Parts.exists_parts read_some_bounded
      (ReadSocket.new schedule stream ended hended, buf) (Nat.zero_le _)
    obtain ⟨result, hread, henhanced, hresult⟩ := SyncRead.readFromSocket_parts hparts
    exact ⟨result, sock, hread, henhanced, readsMessage_of_parts hparts rfl rfl hresult⟩
  · intro buf_size buf hpos
    obtain ⟨parts, ⟨sock, buf'⟩, failure, hparts⟩ := Parts.exists_parts read_some_bounded
      (ReadSocket.new schedule stream ended hended, buf) (Nat.zero_le _)
    obtain ⟨total, hrun, htotal⟩ := (AsyncRead.counting P buf_size).run_parts
      read_some_bounded buf.fits hparts (UInt32.lt_iff_toNat_lt.mp hpos) (Nat.le_succ _)
    have hwhole := asio_transfer_parts read_some_bounded hparts (Nat.zero_le _)
      (Nat.lt_succ_self _)
    refine ⟨sock, buf', total, failure, hrun, hwhole, readsMessage_of_parts hparts rfl rfl ?_⟩
    simp only [AsyncRead.Session.message, htotal]

/-- At most three bytes at a time. -/
def threeAtATime : Schedule where
  result := fun _ m => .ok (min m 3)
  pos := by
    intro i m n hm h
    obtain rfl := Except.ok.inj h
    omega
  le := by
    intro i m n h
    obtain rfl := Except.ok.inj h
    exact Nat.min_le_left m 3
  failure := by
    intro i m ec h
    exact absurd h (by simp)

/-- An array of `n` zeros. -/
def zeros (n : Nat) (h : n ≤ Platform.llp64.SIZE_MAX) : CharArray .llp64 n :=
  ⟨List.replicate n 0, List.length_replicate, h⟩

theorem partial_reads_three :
    (∃ result sock, SyncRead.readFromSocket
        (.new threeAtATime (bytes "abcdefghij") .eof (by decide)) (zeros 7 (by decide)) =
          some (result, sock) ∧
        ReadsMessage (bytes "abcdefghij") 7 result.toOption sock) ∧
      ∃ sock buf' total, AsyncRead.run (AsyncRead.Session.start
          ⟨.new threeAtATime (bytes "abcdefghij") .eof (by decide), 4, zeros 4 (by decide), 0⟩) =
            some ⟨sock, 4, buf', total⟩ ∧
        ReadsMessage (bytes "abcdefghij") 4
          (AsyncRead.Session.message ⟨sock, 4, buf', total⟩) sock := by
  obtain ⟨hsync, hasync⟩ :=
    partial_reads .llp64 threeAtATime (bytes "abcdefghij") .eof (by decide)
  obtain ⟨result, sock, hread, -, hmessage⟩ := hsync (zeros 7 (by decide))
  obtain ⟨sock', buf', total, failure, hrun, -, hmessage'⟩ :=
    hasync 4 (zeros 4 (by decide)) (by decide)
  exact ⟨⟨result, sock, hread, hmessage⟩, sock', buf', total, hrun, hmessage'⟩

end AsioStudy.PartialIo
