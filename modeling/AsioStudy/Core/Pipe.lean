import AsioStudy.Core.Bytes
import AsioStudy.Core.ErrorCode

/-!
# AsioStudy.Core.Pipe

One direction of a stream connection: bytes are read in the order they were written, in
portions that need not be those of the writes, and after the writing side has shut the
direction down the reader comes to its end.

A `Pipe` keeps everything that was written and how far it has been read, so `received` and
`inFlight` always make up what was `sent`.
-/

namespace AsioStudy

structure Pipe where
  /-- Everything that was written. -/
  sent : Bytes
  /-- How many of these bytes have been read. -/
  taken : Nat
  /-- The writing side has shut the direction down. -/
  closed : Bool
  taken_le : taken ≤ sent.length
  deriving DecidableEq, Repr

namespace Pipe

/-- How the next system call of one of the two sides comes out. -/
inductive Outcome
  /-- It succeeds; a portion has `n` bytes. -/
  | ok (n : Nat)
  /-- It fails, with another error than the end of the stream. -/
  | fails (ec : ErrorCode)
  deriving DecidableEq, Repr

def new : Pipe := ⟨[], 0, false, Nat.le_refl _⟩

def received (p : Pipe) : Bytes := p.sent.take p.taken

/-- What has been written and not yet read. -/
def inFlight (p : Pipe) : Bytes := p.sent.drop p.taken

def write (p : Pipe) (text : Bytes) : Pipe where
  sent := p.sent ++ text
  taken := p.taken
  closed := p.closed
  taken_le := by
    rw [List.length_append]
    exact Nat.le_add_right_of_le p.taken_le

def close (p : Pipe) : Pipe := { p with closed := true }

/-- The reader sees the end of the stream. -/
def atEnd (p : Pipe) : Bool := p.closed && p.taken == p.sent.length

/-- A read that delivers `n` bytes; it waits while there are fewer. -/
def read_some (p : Pipe) (n : Nat) : Option (Bytes × Pipe) :=
  if h : 0 < n ∧ p.taken + n ≤ p.sent.length then
    some (p.inFlight.take n, { p with taken := p.taken + n, taken_le := h.2 })
  else none

/-- The pipe after `n` more bytes have been read, if there are as many. -/
def take (p : Pipe) (n : Nat) : Pipe where
  sent := p.sent
  taken := min (p.taken + n) p.sent.length
  closed := p.closed
  taken_le := Nat.min_le_right _ _

/-- A write of `left` that is accepted up to its first `n` bytes: what is still left. -/
def write_some (p : Pipe) (left : Bytes) (n : Nat) : Option (Bytes × Pipe) :=
  if 0 < n ∧ n ≤ left.length then some (left.drop n, p.write (left.take n)) else none

variable {p p' : Pipe} {text left left' : Bytes} {n : Nat}

@[simp] theorem new_sent : new.sent = [] := rfl
@[simp] theorem new_closed : new.closed = false := rfl
@[simp] theorem new_received : new.received = [] := rfl
@[simp] theorem close_sent : p.close.sent = p.sent := rfl
@[simp] theorem close_taken : p.close.taken = p.taken := rfl
@[simp] theorem close_closed : p.close.closed = true := rfl
@[simp] theorem close_received : p.close.received = p.received := rfl
@[simp] theorem take_sent : (p.take n).sent = p.sent := rfl
@[simp] theorem take_closed : (p.take n).closed = p.closed := rfl
@[simp] theorem write_sent : (p.write text).sent = p.sent ++ text := rfl
@[simp] theorem write_taken : (p.write text).taken = p.taken := rfl
@[simp] theorem write_closed : (p.write text).closed = p.closed := rfl

@[simp] theorem write_received : (p.write text).received = p.received :=
  List.take_append_of_le_length p.taken_le

theorem received_append_inFlight (p : Pipe) : p.received ++ p.inFlight = p.sent :=
  List.take_append_drop ..

theorem received_isPrefix (p : Pipe) : p.received <+: p.sent := List.take_prefix ..

/-- Taking a part of what is in flight. -/
theorem take_received (h : text <+: p.inFlight) :
    (p.take text.length).received = p.received ++ text := by
  obtain ⟨rest, hrest⟩ := h
  have hlen := congrArg List.length hrest
  rw [List.length_append, inFlight, List.length_drop] at hlen
  have hle := p.taken_le
  have htake : p.inFlight.take text.length = text := by rw [← hrest, List.take_left]
  have hmin : min (p.taken + text.length) p.sent.length = p.taken + text.length := by omega
  calc (p.take text.length).received
      = p.sent.take (min (p.taken + text.length) p.sent.length) := rfl
    _ = p.received ++ p.inFlight.take text.length := by rw [hmin, List.take_add]; rfl
    _ = p.received ++ text := by rw [htake]

theorem received_eq_nil (h : p.sent = []) : p.received = [] := by
  rw [received, h, List.take_nil]

theorem inFlight_eq_sent (h : p.received = []) : p.inFlight = p.sent := by
  have happend := p.received_append_inFlight
  rwa [h, List.nil_append] at happend

/-- Whoever has come to the end has read everything. -/
theorem received_of_atEnd (h : p.atEnd = true) : p.closed = true ∧ p.received = p.sent := by
  simp only [atEnd, Bool.and_eq_true, beq_iff_eq] at h
  exact ⟨h.1, by rw [received, h.2, List.take_length]⟩

theorem atEnd_close (h : p.atEnd = true) : p.close.atEnd = true := by
  simp only [atEnd, Bool.and_eq_true] at h ⊢
  exact ⟨rfl, h.2⟩

/-- A direction that is still open has not come to its end. -/
theorem not_atEnd (h : p.closed = false) : p.atEnd ≠ true := by
  simp [atEnd, h]

/-- What a read does. -/
theorem read_some_eq_some (h : p.read_some n = some (text, p')) :
    0 < n ∧ p'.sent = p.sent ∧ p'.closed = p.closed ∧ p'.taken = p.taken + n ∧
      p'.received = p.received ++ text := by
  unfold read_some at h
  split at h
  · next hn =>
    obtain ⟨rfl, rfl⟩ := Prod.mk.inj (Option.some.inj h)
    exact ⟨hn.1, rfl, rfl, rfl, List.take_add⟩
  · exact absurd h nofun

/-- A read goes nowhere at the end of the stream. -/
theorem not_atEnd_of_read (h : p.read_some n = some (text, p')) : p.atEnd ≠ true := by
  intro hend
  obtain ⟨hpos, hsent, -, htaken, -⟩ := read_some_eq_some h
  have hle := p'.taken_le
  simp only [atEnd, Bool.and_eq_true, beq_iff_eq] at hend
  rw [hsent, htaken, ← hend.2] at hle
  omega

/-- A reader that waits has read everything. -/
theorem taken_of_waits (p : Pipe) (h : p.read_some 1 = none) : p.taken = p.sent.length := by
  have hle := p.taken_le
  unfold read_some at h
  split at h
  · exact absurd h nofun
  · next hnot => omega

theorem received_of_waits (p : Pipe) (h : p.read_some 1 = none) : p.received = p.sent := by
  rw [received, p.taken_of_waits h, List.take_length]

/-- A reader that has not come to the end and waits has read everything of an open stream. -/
theorem open_of_waits (p : Pipe) (hend : ¬ p.atEnd = true) (h : p.read_some 1 = none) :
    p.closed = false := by
  have htaken := p.taken_of_waits h
  cases hclosed : p.closed with
  | false => rfl
  | true => exact absurd (by simp [atEnd, hclosed, htaken]) hend

/-- What a write does. -/
theorem write_some_eq_some (h : p.write_some left n = some (left', p')) :
    0 < n ∧ left'.length + n = left.length ∧ p'.sent ++ left' = p.sent ++ left ∧
      p'.closed = p.closed ∧ p'.taken = p.taken ∧ p'.received = p.received := by
  unfold write_some at h
  split at h
  · next hn =>
    obtain ⟨rfl, rfl⟩ := Prod.mk.inj (Option.some.inj h)
    refine ⟨hn.1, ?_, ?_, rfl, rfl, write_received⟩
    · rw [List.length_drop]
      omega
    · rw [write_sent, List.append_assoc, List.take_append_drop]
  · exact absurd h nofun

theorem exists_write_some (p : Pipe) (h : left ≠ []) : (p.write_some left 1).isSome = true := by
  have hlen := List.length_pos_iff.mpr h
  simp [write_some, Nat.succ_le_of_lt hlen]

/-! ### A side that writes one text -/

/-- Where a side is that writes one text and then closes its direction. -/
inductive Writer
  /-- It has these bytes left to write. -/
  | writing (left : Bytes)
  /-- It has closed the direction after the whole text. -/
  | finished
  /-- It has closed the direction, maybe before the end of the text. -/
  | broken
  deriving DecidableEq, Repr

/-- The pipe carries what a side has written of its text. -/
def Carries (p : Pipe) (text : Bytes) : Writer → Prop
  | .writing left => p.sent ++ left = text ∧ p.closed = false
  | .finished => p.sent = text ∧ p.closed = true
  | .broken => p.sent <+: text ∧ p.closed = true

variable {writer : Writer}

theorem Carries.isPrefix (h : p.Carries text writer) : p.sent <+: text := by
  cases writer with
  | writing left => exact ⟨left, h.1⟩
  | finished => exact h.1 ▸ List.prefix_refl _
  | broken => exact h.1

/-- It does not depend on how far the other side has read. -/
theorem Carries.congr (h : p.Carries text writer) (hsent : p'.sent = p.sent)
    (hclosed : p'.closed = p.closed) : p'.Carries text writer := by
  cases writer <;> simpa only [Carries, hsent, hclosed] using h

theorem new_carries (text : Bytes) : new.Carries text (.writing text) := ⟨rfl, rfl⟩

theorem Carries.write_some (h : p.Carries text (.writing left))
    (hwrite : p.write_some left n = some (left', p')) : p'.Carries text (.writing left') := by
  obtain ⟨-, -, hsent, hclosed, -, -⟩ := write_some_eq_some hwrite
  exact ⟨hsent.trans h.1, hclosed.trans h.2⟩

/-- Whoever has nothing left closes after the whole text. -/
theorem Carries.close (h : p.Carries text (.writing [])) : p.close.Carries text .finished :=
  ⟨by simpa using h.1, rfl⟩

theorem Carries.abort (h : p.Carries text writer) : p.close.Carries text .broken :=
  ⟨h.isPrefix, rfl⟩

end Pipe

end AsioStudy
