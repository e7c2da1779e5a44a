import AsioStudy.Core.Bytes
import AsioStudy.Core.ErrorCode
import AsioStudy.Core.PartialTransfer

/-!
# AsioStudy.PartialIo.Model

What the four programs that count transferred bytes have in common: a loop around a
synchronous operation (`transfer_loop`) and a completion handler that starts the next
operation (`counting_callback`, run by `run_handlers`). Both count in a `std::size_t`, whose
arithmetic wraps around, and both test the count with `!=`. Both are compared with
`asio_transfer`, the composed operation of the library.

As long as the count stays within the size nothing wraps, and the operations are the `Parts`
of one transfer.
-/

namespace AsioStudy

/-! ### `std::size_t` -/

def Platform.size_add (P : Platform) (a b : Nat) : Nat := (a + b) % (P.SIZE_MAX + 1)

def Platform.size_sub (P : Platform) (a b : Nat) : Nat :=
  (a + (P.SIZE_MAX + 1) - b) % (P.SIZE_MAX + 1)

theorem Platform.size_add_eq {P : Platform} {a b : Nat} (h : a + b ≤ P.SIZE_MAX) :
    P.size_add a b = a + b :=
  Nat.mod_eq_of_lt (Nat.lt_succ_of_le h)

theorem Platform.size_sub_eq {P : Platform} {a b : Nat} (hle : b ≤ a) (ha : a ≤ P.SIZE_MAX) :
    P.size_sub a b = a - b := by
  have hadd : a + (P.SIZE_MAX + 1) - b = a - b + (P.SIZE_MAX + 1) := by omega
  rw [Platform.size_sub, hadd, Nat.add_mod_right]
  exact Nat.mod_eq_of_lt (by omega)

namespace PartialIo

/-- What the socket does with the operations it is given, by the number of operations before
and the bytes in question. -/
structure Schedule where
  result : Nat → Nat → Except ErrorCode Nat
  pos : ∀ {i m n}, 0 < m → result i m = .ok n → 0 < n
  le : ∀ {i m n}, result i m = .ok n → n ≤ m
  failure : ∀ {i m ec}, result i m = .error ec → ec.value ≠ 0

variable {σ τ : Type*}

/-! ### The loops -/

/-- `while (total != size) total += …`, at most `fuel` tests of it: the exception that has
left it, the count and the state; `none` when it has not ended. -/
def transfer_loop (P : Platform) (io : Io σ ErrorCode) (size : Nat) :
    Nat → Nat → σ → Option (Option ErrorCode × Nat × σ)
  | 0, _, _ => none
  | fuel + 1, total, st =>
      if total ≠ size then
        match io st ⟨total, P.size_sub size total⟩ with
        | (.error ec, st) => some (some ec, total, st)
        | (.ok n, st) => transfer_loop P io size fuel (P.size_add total n) st
      else some (none, total, st)

/-- The completion handler, by the count: what it becomes, and the range of the operation
that is started. -/
def counting_callback (P : Platform) (size : Nat) (ec : ErrorCode) (bytes_transferred : Nat)
    (total : Nat) : Nat × Option Range :=
  if ec.value ≠ 0 then (total, none)
  else
    let total := P.size_add total bytes_transferred
    if total = size then (total, none) else (total, some ⟨total, P.size_sub size total⟩)

/-- The arguments of a completion handler. -/
def completion : Except ErrorCode Nat → ErrorCode × Nat
  | .ok bytes_transferred => (.success, bytes_transferred)
  | .error ec => (ec, 0)

/-- Complete the pending operation and run its handler, as long as that starts another one;
`none` when one is still pending after `fuel` completions. -/
def run_handlers (io : Io τ ErrorCode) (callback : ErrorCode → Nat → τ → τ × Option Range) :
    Nat → Range → τ → Option τ
  | 0, _, _ => none
  | fuel + 1, pending, s =>
      let (result, s) := io s pending
      let (ec, bytes_transferred) := completion result
      match callback ec bytes_transferred s with
      | (s, none) => some s
      | (s, some next) => run_handlers io callback fuel next s

/-- `asio::write` and `asio::read` with a buffer: the operation is given the rest of the
buffer until none is left or it fails. -/
def asio_transfer (io : Io σ ErrorCode) : Nat → Range → σ → Option (Option ErrorCode × σ)
  | 0, _, _ => none
  | fuel + 1, rest, st =>
      if rest.length = 0 then some (none, st)
      else
        match io st rest with
        | (.error ec, st) => some (some ec, st)
        | (.ok n, st) => asio_transfer io fuel ⟨rest.offset + n, rest.length - n⟩ st

/-! ### They transfer in parts -/

section
variable {P : Platform} {io : Io σ ErrorCode} {size total fuel : Nat} {st st' : σ}
  {parts : List (Part ErrorCode)} {failure : Option ErrorCode}

theorem transfer_loop_parts (hb : Bounded io) (hsize : size ≤ P.SIZE_MAX)
    (h : Parts io size st total parts st' failure) (hle : total ≤ size)
    (hfuel : size - total < fuel) :
    ∃ total', transfer_loop P io size fuel total st = some (failure, total', st') ∧
      (failure = none → total' = size) := by
  induction h generalizing fuel with
  | done =>
      obtain ⟨fuel, rfl⟩ := Nat.exists_eq_add_of_lt hfuel
      exact ⟨size, by simp [transfer_loop], fun _ => rfl⟩
  | @fails st st' total e hlt hio =>
      obtain ⟨fuel, rfl⟩ := Nat.exists_eq_add_of_lt hfuel
      refine ⟨total, ?_, by simp⟩
      rw [transfer_loop, if_pos (Nat.ne_of_lt hlt), P.size_sub_eq hle hsize, hio]
  | @more st st' st'' total n parts failure hlt hio _ ih =>
      have hpos : 0 < n := hb.pos (Nat.sub_pos_of_lt hlt) hio
      have hmore : n ≤ size - total := hb.le hio
      cases fuel with
      | zero => exact absurd hfuel (Nat.not_lt_zero _)
      | succ fuel =>
          obtain ⟨total', hloop, htotal⟩ := ih (by omega) (by omega : size - (total + n) < fuel)
          refine ⟨total', ?_, htotal⟩
          rw [transfer_loop, if_pos (Nat.ne_of_lt hlt), P.size_sub_eq hle hsize, hio]
          dsimp only
          -- no more than the range was transferred, so the count does not wrap around
          rw [Platform.size_add_eq (by omega), hloop]

/-- The library does it without a count. -/
theorem asio_transfer_parts (hb : Bounded io) (h : Parts io size st total parts st' failure)
    (hle : total ≤ size) (hfuel : size - total < fuel) :
    asio_transfer io fuel ⟨total, size - total⟩ st = some (failure, st') := by
  induction h generalizing fuel with
  | done =>
      obtain ⟨fuel, rfl⟩ := Nat.exists_eq_add_of_lt hfuel
      simp [asio_transfer]
  | @fails st st' total e hlt hio =>
      obtain ⟨fuel, rfl⟩ := Nat.exists_eq_add_of_lt hfuel
      have hne : size - total ≠ 0 := by omega
      simp only [asio_transfer, hne, if_false, hio]
  | @more st st' st'' total n parts failure hlt hio _ ih =>
      have hpos : 0 < n := hb.pos (Nat.sub_pos_of_lt hlt) hio
      have hmore : n ≤ size - total := hb.le hio
      have hne : size - total ≠ 0 := by omega
      cases fuel with
      | zero => exact absurd hfuel (Nat.not_lt_zero _)
      | succ fuel =>
          have hrest := ih (by omega) (by omega : size - (total + n) < fuel)
          rw [← Nat.sub_sub] at hrest
          simp only [asio_transfer, hne, if_false, hio]
          exact hrest

/-- A callback chain on a state that consists of the count and the state of the operation:
the handler counts, and the operation fails with an error code. -/
structure Counting (P : Platform) (io : Io σ ErrorCode) (size : Nat) (io' : Io τ ErrorCode)
    (callback : ErrorCode → Nat → τ → τ × Option Range) (mk : σ → Nat → τ) : Prop where
  io_mk : ∀ st total r, io' (mk st total) r = ((io st r).1, mk (io st r).2 total)
  callback_mk : ∀ ec n st total, callback ec n (mk st total) =
    (mk st (counting_callback P size ec n total).1, (counting_callback P size ec n total).2)
  error : ∀ {st r ec}, (io st r).1 = .error ec → ec.value ≠ 0

variable {io' : Io τ ErrorCode} {callback : ErrorCode → Nat → τ → τ × Option Range}
  {mk : σ → Nat → τ}

/-- A failed operation ends the chain. -/
theorem Counting.run_error (hc : Counting P io size io' callback mk) {r : Range} {ec : ErrorCode}
    (hio : io st r = (.error ec, st')) (total fuel : Nat) :
    run_handlers io' callback (fuel + 1) r (mk st total) = some (mk st' total) := by
  have hne : ec.value ≠ 0 := hc.error (congrArg Prod.fst hio)
  simp only [run_handlers, hc.io_mk, hio, completion, hc.callback_mk, counting_callback, hne, ne_eq,
    not_false_eq_true, if_true]

/-- An operation that completes the count ends it too. -/
theorem Counting.run_done (hc : Counting P io size io' callback mk) {r : Range} {n : Nat}
    (hio : io st r = (.ok n, st')) (hsize : size ≤ P.SIZE_MAX) (heq : total + n = size)
    (fuel : Nat) :
    run_handlers io' callback (fuel + 1) r (mk st total) = some (mk st' size) := by
  have hadd : P.size_add total n = size := by rw [Platform.size_add_eq (heq ▸ hsize), heq]
  simp only [run_handlers, hc.io_mk, hio, completion, hc.callback_mk, counting_callback, hadd,
    ErrorCode.success_value, ne_eq, not_true_eq_false, if_false, if_true]

/-- Any other one starts the next. -/
theorem Counting.run_more (hc : Counting P io size io' callback mk) {r : Range} {n : Nat}
    (hio : io st r = (.ok n, st')) (hsize : size ≤ P.SIZE_MAX) (hlt : total + n < size)
    (fuel : Nat) :
    run_handlers io' callback (fuel + 1) r (mk st total) =
      run_handlers io' callback fuel ⟨total + n, size - (total + n)⟩ (mk st' (total + n)) := by
  have hadd : P.size_add total n = total + n := Platform.size_add_eq (by omega)
  simp only [run_handlers, hc.io_mk, hio, completion, hc.callback_mk, counting_callback, hadd,
    ErrorCode.success_value, ne_eq, not_true_eq_false, if_false, Nat.ne_of_lt hlt,
    Platform.size_sub_eq (Nat.le_of_lt hlt) hsize]

/-- **The callbacks go through the same parts.** -/
theorem Counting.run_parts (hc : Counting P io size io' callback mk) (hb : Bounded io)
    (hsize : size ≤ P.SIZE_MAX) (h : Parts io size st total parts st' failure)
    (hlt : total < size) (hfuel : size - total ≤ fuel) :
    ∃ total', run_handlers io' callback fuel ⟨total, size - total⟩ (mk st total) =
      some (mk st' total') ∧ (failure = none ↔ total' = size) := by
  induction h generalizing fuel with
  | done => exact absurd hlt (Nat.lt_irrefl _)
  | @fails st st' total e _ hio =>
      obtain ⟨fuel, rfl⟩ : ∃ n, fuel = n + 1 := ⟨fuel - 1, by omega⟩
      exact ⟨total, hc.run_error hio total fuel, by simp [Nat.ne_of_lt hlt]⟩
  | @more st st' st'' total n parts failure _ hio hrest ih =>
      have hpos : 0 < n := hb.pos (Nat.sub_pos_of_lt hlt) hio
      have hmore : n ≤ size - total := hb.le hio
      obtain ⟨fuel, rfl⟩ : ∃ n, fuel = n + 1 := ⟨fuel - 1, by omega⟩
      -- the handler tests the count right after the operation, the loop before the next one
      rcases Nat.eq_or_lt_of_le (by omega : total + n ≤ size) with heq | hlt'
      · rw [heq] at hrest
        obtain ⟨-, rfl, rfl⟩ := hrest.of_done
        exact ⟨size, hc.run_done hio hsize heq fuel, by simp⟩
      · obtain ⟨total', hrun, htotal⟩ := ih hlt' (by omega : size - (total + n) ≤ fuel)
        exact ⟨total', (hc.run_more hio hsize hlt' fuel).trans hrun, htotal⟩

end

end PartialIo

end AsioStudy
