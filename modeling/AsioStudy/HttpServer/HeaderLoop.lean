import AsioStudy.HttpServer.Model

/-!
# AsioStudy.HttpServer.HeaderLoop

When the `while (!request_stream.eof())` loop of `on_headers_received` ends.

It tests `eofbit` only. On a stream with `failbit` and without `eofbit` nothing is read any
more and nothing sets `eofbit`, so the loop would spin (`header_loop_spins`). Reading never
leaves a stream so (`IStream.Consistent`), and every iteration gets further
(`header_loop_step`). `getline` has one more reason to fail, a line of `max_size()`
characters; `m_request` holds `max_request` bytes at most, so it cannot come to that.
-/

namespace AsioStudy.HttpServer

variable {s : Service} {fuel : Nat} {stream : IStream} {header_name header_value : Bytes}
  {m : StdMap Bytes Bytes}

/-- **One iteration** leaves less to read, and a stream that has failed only at its end. -/
theorem header_loop_step (h : stream.Consistent) (heof : stream.eof = false)
    (header_name header_value : Bytes) (m : StdMap Bytes Bytes) :
    ∃ header_name' header_value' stream' m',
      (∀ fuel, Service.header_loop (fuel + 1) header_name header_value stream m =
        Service.header_loop fuel header_name' header_value' stream' m') ∧
      stream'.Consistent ∧ stream'.unread < stream.unread := by
  have hgood : stream.good = true := by
    refine h.good_or_eof.resolve_right ?_
    rw [heof]
    exact Bool.false_ne_true
  have hname := h.getline header_name COLON
  have hlt := IStream.getline_unread_lt hgood header_name COLON
  rcases hline : stream.getline header_name COLON with ⟨name, stream₁⟩
  rw [hline] at hname hlt
  cases heof₁ : stream₁.eof with
  | true =>
      refine ⟨name, header_value, stream₁, m, ?_, hname, hlt⟩
      intro fuel
      simp only [Service.header_loop, heof, hline, heof₁, if_true, Bool.false_eq_true, if_false]
  | false =>
      have hvalue := hname.getline header_value CR
      have hle := IStream.getline_unread_le hname header_value CR
      rcases hline₁ : stream₁.getline header_value CR with ⟨value, stream₂⟩
      rw [hline₁] at hvalue hle
      have hget := IStream.get_unread_le hvalue
      have hless := Nat.lt_of_le_of_lt (Nat.le_trans hget hle) hlt
      refine ⟨name, value, stream₂.get.2, m.insert name value, ?_, hvalue.get, hless⟩
      intro fuel
      simp only [Service.header_loop, heof, hline, heof₁, hline₁, Bool.false_eq_true, if_false]

/-- The loop ends on every stream that has failed only at its end. -/
theorem header_loop_ends (h : stream.Consistent) (hfuel : stream.unread < fuel)
    (header_name header_value : Bytes) (m : StdMap Bytes Bytes) :
    (Service.header_loop fuel header_name header_value stream m).isSome = true := by
  induction fuel generalizing stream header_name header_value m with
  | zero => exact absurd hfuel (Nat.not_lt_zero _)
  | succ fuel ih =>
      cases heof : stream.eof with
      | true => simp only [Service.header_loop, heof, if_true, Option.isSome_some]
      | false =>
          obtain ⟨header_name', header_value', stream', m', hstep, h', hlt⟩ :=
            header_loop_step h heof header_name header_value m
          rw [hstep fuel]
          exact ih h' (by omega) header_name' header_value' m'

/-- On a fresh stream it does so in the iterations that `on_headers_received` allows it. -/
theorem header_loop_ends_on (buf header_name header_value : Bytes) (m : StdMap Bytes Bytes) :
    (Service.header_loop (buf.length + 2) header_name header_value (IStream.on buf) m).isSome =
      true := by
  refine header_loop_ends (IStream.consistent_on buf) ?_ header_name header_value m
  rw [IStream.unread_on]
  exact Nat.lt_succ_self _

/-- It spins on every other stream. -/
theorem header_loop_spins (hfail : stream.failbit = true) (heof : stream.eofbit = false)
    (fuel : Nat) (header_name header_value : Bytes) (m : StdMap Bytes Bytes) :
    Service.header_loop fuel header_name header_value stream m = none := by
  induction fuel generalizing header_value m with
  | zero => rfl
  | succ fuel ih =>
      obtain ⟨rest, eofbit, failbit⟩ := stream
      obtain rfl : failbit = true := hfail
      obtain rfl : eofbit = false := heof
      exact ih _ _

/-- **When the loop ends.** -/
theorem header_loop_ends_iff (stream : IStream) (header_name header_value : Bytes)
    (m : StdMap Bytes Bytes) :
    (∃ fuel, (Service.header_loop fuel header_name header_value stream m).isSome = true) ↔
      (stream.failbit = true → stream.eofbit = true) := by
  constructor
  · intro h hfail
    obtain ⟨fuel, hsome⟩ := h
    by_contra heof
    rw [header_loop_spins hfail (by simpa using heof)] at hsome
    exact absurd hsome (by simp)
  · intro h
    cases heof : stream.eofbit with
    | true => exact ⟨1, by simp [Service.header_loop, IStream.eof, heof]⟩
    | false =>
        have hfail : stream.failbit = false := by
          by_contra hfail
          exact absurd (heof.symm.trans (h (by simpa using hfail))) (by simp)
        have hgood : stream.good = true := IStream.good_iff.mpr ⟨heof, hfail⟩
        exact ⟨stream.unread + 1, header_loop_ends (IStream.consistent_of_good hgood)
          (Nat.lt_succ_self _) header_name header_value m⟩

theorem error_check_ne_loops {ec : ErrorCode} {r : Service × Exit}
    (h : s.error_check ec = some r) : r.2 ≠ .loops := by
  unfold Service.error_check at h
  split at h
  · split at h
    · obtain rfl := Option.some.inj h
      simp
    · obtain rfl := Option.some.inj h
      simp
  · exact absurd h (by simp)

theorem on_headers_received_ne_loops (s : Service) (ec : ErrorCode) :
    (s.on_headers_received ec).2 ≠ .loops := by
  obtain ⟨r, hr⟩ := Option.isSome_iff_exists.mp (header_loop_ends_on s.m_request [] []
    s.m_request_headers)
  cases hec : s.error_check ec with
  | some r =>
      have hexit := error_check_ne_loops hec
      simpa only [Service.on_headers_received, hec] using hexit
  | none => simp [Service.on_headers_received, hec, hr]

/-- **The header loop ends**, whatever `m_request` holds. -/
theorem on_headers_received_ends (s : Service) :
    (∃ iterations, iterations ≤ s.m_request.length + 2 ∧
      (Service.header_loop iterations [] [] (IStream.on s.m_request)
        s.m_request_headers).isSome = true) ∧
      ∀ ec, (s.on_headers_received ec).2 ≠ .loops := by
  have hends := header_loop_ends_on s.m_request [] [] s.m_request_headers
  exact ⟨⟨_, Nat.le_refl _, hends⟩, on_headers_received_ne_loops s⟩

end AsioStudy.HttpServer
