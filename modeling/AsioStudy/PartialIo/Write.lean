import AsioStudy.PartialIo.Model

/-!
# AsioStudy.PartialIo.Write

`sync_write::writeToSocket`, `sync_write::writeToSocketEnhanced` and the callback chain of
`async_write::writeToSocket`, on a socket that accepts what a `Schedule` says.

All three go through the parts of one transfer. What the socket has accepted is the part of
the string before the count (`write_some_parts`), so it is the string when no write fails
and what came before the failing write otherwise (`Writes`).
-/

namespace AsioStudy.PartialIo

/-- A `std::string`: its length is a `std::size_t`. -/
structure StdString (P : Platform) where
  data : Bytes
  fits : data.length ≤ P.SIZE_MAX

/-- `length()` -/
abbrev StdString.length {P : Platform} (s : StdString P) : Nat := s.data.length

/-- The socket as a writer sees it. -/
structure WriteSocket where
  schedule : Schedule
  /-- The bytes accepted so far. -/
  accepted : Bytes
  /-- The writes so far. -/
  log : List (Part ErrorCode)

/-- A socket that nothing has been written to. -/
def WriteSocket.new (schedule : Schedule) : WriteSocket := ⟨schedule, [], []⟩

/-- `write_some` of a range of `data`. -/
def write_some (data : Bytes) : Io WriteSocket ErrorCode := fun sock r =>
  let result := sock.schedule.result sock.log.length r.length
  let accepted :=
    match result with
    | .ok n => (data.drop r.offset).take n
    | .error _ => []
  (result, { sock with accepted := sock.accepted ++ accepted, log := sock.log ++ [⟨r, result⟩] })

namespace SyncWrite

/-- `sync_write::writeToSocket`: the exception it throws, and the socket. -/
def writeToSocket {P : Platform} (sock : WriteSocket) (buf : StdString P) :
    Option (Option ErrorCode × Nat × WriteSocket) :=
  transfer_loop P (write_some buf.data) buf.length (buf.length + 1) 0 sock

/-- `sync_write::writeToSocketEnhanced` -/
def writeToSocketEnhanced {P : Platform} (sock : WriteSocket) (buf : StdString P) :
    Option (Option ErrorCode × WriteSocket) :=
  asio_transfer (write_some buf.data) (buf.length + 1) ⟨0, buf.length⟩ sock

end SyncWrite

namespace AsyncWrite

/-- `async_write::Session` -/
structure Session (P : Platform) where
  sock : WriteSocket
  buf : StdString P
  total_bytes_written : Nat

variable {P : Platform}

/-- `async_write::callback`: the session, and the range of the write it starts. -/
def callback (ec : ErrorCode) (bytes_transferred : Nat) (s : Session P) :
    Session P × Option Range :=
  let (total_bytes_written, next) :=
    counting_callback P s.buf.length ec bytes_transferred s.total_bytes_written
  ({ s with total_bytes_written := total_bytes_written }, next)

/-- `async_write::writeToSocket`: the session, and the range of the first write. -/
def writeToSocket (sock : WriteSocket) (buf : StdString P) : Session P × Range :=
  (⟨sock, buf, 0⟩, ⟨0, buf.length⟩)

/-- The pending write is completed. -/
def async_write_some : Io (Session P) ErrorCode := fun s r =>
  let (result, sock) := write_some s.buf.data s.sock r
  (result, { s with sock := sock })

/-- `writeToSocket` and the callbacks after it. -/
def run (sock : WriteSocket) (buf : StdString P) : Option (Session P) :=
  let (s, first) := writeToSocket sock buf
  run_handlers async_write_some callback (buf.length + 1) first s

end AsyncWrite

/-! ### One transfer -/

variable {P : Platform} {buf : StdString P} {sock sock' : WriteSocket} {data : Bytes}
  {parts : List (Part ErrorCode)} {failure : Option ErrorCode}

theorem write_some_bounded (data : Bytes) : Bounded (write_some data) where
  pos := by
    intro st st' r n hr h
    exact st.schedule.pos hr (congrArg Prod.fst h)
  le := by
    intro st st' r n h
    exact st.schedule.le (congrArg Prod.fst h)

/-- **What the socket has accepted is what comes before the count.** -/
theorem write_some_parts (h : Parts (write_some data) data.length sock 0 parts sock' failure)
    (hempty : sock.accepted = []) :
    (failure = none → sock'.accepted = data) ∧
      (∀ e, failure = some e → ∃ k, k < data.length ∧ sock'.accepted = data.take k) := by
  have hinv := h.invariant (I := fun total sock => sock.accepted = data.take total)
    (J := fun total sock => sock.accepted = data.take total) ?_ ?_ (by rw [hempty]; rfl)
  · refine ⟨fun hnone => ?_, hinv.2⟩
    have hall := hinv.1 hnone
    rwa [List.take_length] at hall
  · intro st st' total n _ hI hio
    obtain ⟨hresult, rfl⟩ := Prod.mk.inj hio
    show st.accepted ++ _ = data.take (total + n)
    rw [hresult, hI, List.take_add]
  · intro st st' total e _ hI hio
    obtain ⟨hresult, rfl⟩ := Prod.mk.inj hio
    show st.accepted ++ _ = data.take total
    rw [hresult, hI]
    exact List.append_nil _

/-! ### What is delivered -/

/-- How a write of `data` leaves a socket that nothing had been written to. -/
structure Writes (data : Bytes) (sock : WriteSocket) : Prop where
  /-- Every range is in the string. -/
  inside : ∀ p ∈ sock.log, p.offset + p.length ≤ data.length
  /-- Without a failure the string is accepted, each byte once and in order. -/
  whole : (∀ p ∈ sock.log, ¬ p.Failed) → sock.accepted = data
  /-- Otherwise some of its first bytes are. -/
  front : sock.accepted <+: data
  /-- No write comes after one that has failed. -/
  last : ∀ pre p post, sock.log = pre ++ p :: post → p.Failed → post = []

theorem writes_of_parts {schedule : Schedule}
    (h : Parts (write_some data) data.length (.new schedule) 0 parts sock failure) :
    Writes data sock := by
  have hlog : sock.log = parts := h.log WriteSocket.log fun _ _ => rfl
  obtain ⟨hwhole, hpart⟩ := write_some_parts h rfl
  refine ⟨hlog ▸ h.inside, ?_, ?_, ?_⟩
  · intro hok
    exact hwhole (h.failure_eq_none_iff.mpr (hlog ▸ hok))
  · cases hf : failure with
    | none =>
        have hall := hwhole hf
        exact hall ▸ List.prefix_rfl
    | some e =>
        obtain ⟨k, -, hk⟩ := hpart e hf
        rw [hk]
        exact List.take_prefix k data
  · intro pre p post hp
    exact h.last (hlog ▸ hp)

/-! ### The callback chain -/

theorem AsyncWrite.counting (buf : StdString P) :
    Counting P (write_some buf.data) buf.length AsyncWrite.async_write_some AsyncWrite.callback
      fun sock total => ⟨sock, buf, total⟩ where
  io_mk := fun _ _ _ => rfl
  callback_mk := fun _ _ _ _ => rfl
  error := by
    intro sock r ec h
    exact sock.schedule.failure h

/-- On a string that is not empty the callbacks go through the same transfer. -/
theorem AsyncWrite.run_parts
    (h : Parts (write_some buf.data) buf.length sock 0 parts sock' failure)
    (hne : 0 < buf.length) :
    ∃ total, AsyncWrite.run sock buf = some ⟨sock', buf, total⟩ := by
  obtain ⟨total, hrun, -⟩ := (AsyncWrite.counting buf).run_parts (write_some_bounded buf.data)
    buf.fits h hne (Nat.le_succ _)
  exact ⟨total, hrun⟩

/-- The socket after the write of an empty range. -/
theorem write_some_empty (schedule : Schedule) (hempty : data = []) :
    write_some data (.new schedule) ⟨0, 0⟩ = (schedule.result 0 0,
      ⟨schedule, [], [⟨⟨0, 0⟩, schedule.result 0 0⟩]⟩) := by
  cases h : schedule.result 0 0 <;> simp [write_some, WriteSocket.new, h, hempty]

/-- For the empty string one write of nothing is started, and no other after it. -/
theorem AsyncWrite.run_empty (schedule : Schedule) (hempty : buf.data = []) :
    ∃ total, AsyncWrite.run (.new schedule) buf =
      some ⟨⟨schedule, [], [⟨⟨0, 0⟩, schedule.result 0 0⟩]⟩, buf, total⟩ := by
  have hlen : buf.length = 0 := by rw [StdString.length, hempty]; rfl
  have hwrite := write_some_empty schedule hempty
  have hfirst : AsyncWrite.run (.new schedule) buf = run_handlers AsyncWrite.async_write_some
      AsyncWrite.callback (0 + 1) ⟨0, 0⟩ ⟨.new schedule, buf, 0⟩ := by
    simp only [AsyncWrite.run, AsyncWrite.writeToSocket, hlen]
  rw [hfirst]
  cases hresult : schedule.result 0 0 with
  | error ec =>
      rw [hresult] at hwrite
      exact ⟨0, (AsyncWrite.counting buf).run_error hwrite 0 0⟩
  | ok n =>
      have hn : 0 + n = buf.length := by
        rw [hlen, Nat.le_zero.mp (schedule.le hresult)]
      rw [hresult] at hwrite
      exact ⟨buf.length, (AsyncWrite.counting buf).run_done hwrite buf.fits hn 0⟩

/-! ### Agreement with the whole write -/

theorem Writes.of_empty (schedule : Schedule) (hempty : data = []) :
    Writes data ⟨schedule, [], [⟨⟨0, 0⟩, schedule.result 0 0⟩]⟩ where
  inside := by
    intro p hp
    obtain rfl := List.mem_singleton.mp hp
    exact Nat.zero_le _
  whole := fun _ => hempty.symm
  front := List.nil_prefix
  last := by
    intro pre p post hp _
    cases pre with
    | nil => exact (List.cons.inj hp).2.symm
    | cons q pre => simp at hp

/-- **Partial writes agree with a whole write.** -/
theorem partial_writes (schedule : Schedule) (buf : StdString P) :
    ∃ exception total sock whole s,
      SyncWrite.writeToSocket (.new schedule) buf = some (exception, total, sock) ∧
      SyncWrite.writeToSocketEnhanced (.new schedule) buf = some (exception, whole) ∧
      AsyncWrite.run (.new schedule) buf = some s ∧
      (exception = none ↔ ∀ p ∈ sock.log, ¬ p.Failed) ∧
      Writes buf.data sock ∧ Writes buf.data whole ∧ Writes buf.data s.sock ∧
      sock.accepted = whole.accepted ∧ s.sock.accepted = whole.accepted := by
  obtain ⟨parts, sock, failure, hparts⟩ :=
    Parts.exists_parts (write_some_bounded buf.data) (.new schedule) (Nat.zero_le buf.length)
  have hwrites := writes_of_parts hparts
  have hlog : sock.log = parts := hparts.log WriteSocket.log fun _ _ => rfl
  have hthrows : failure = none ↔ ∀ p ∈ sock.log, ¬ p.Failed :=
    hlog ▸ hparts.failure_eq_none_iff
  obtain ⟨total, hsync, -⟩ := transfer_loop_parts (write_some_bounded buf.data) buf.fits hparts
    (Nat.zero_le _) (Nat.lt_succ_self _)
  have hwhole := asio_transfer_parts (write_some_bounded buf.data) hparts (Nat.zero_le _)
    (Nat.lt_succ_self _)
  -- only the callback chain writes anything of an empty string
  rcases Nat.eq_zero_or_pos buf.length with hlen | hne
  · have hempty : buf.data = [] := List.length_eq_zero_iff.mp hlen
    obtain ⟨total', hasync⟩ := AsyncWrite.run_empty schedule hempty
    have hnone : sock.accepted = [] := List.prefix_nil.mp (hempty ▸ hwrites.front)
    exact ⟨failure, total, sock, sock, _, hsync, hwhole, hasync, hthrows, hwrites, hwrites,
      .of_empty schedule hempty, rfl, hnone.symm⟩
  · obtain ⟨total', hasync⟩ := AsyncWrite.run_parts hparts hne
    exact ⟨failure, total, sock, sock, _, hsync, hwhole, hasync, hthrows, hwrites, hwrites,
      hwrites, rfl, rfl⟩

end AsioStudy.PartialIo
