import AsioStudy.Core.AsyncObject
import AsioStudy.HttpServer.Model

/-!
# AsioStudy.HttpServer.Machine

The class `Service` as a program: its completion handlers in steps, with any outcomes and
any bytes. The functions of the model are the steps; `error_check` and the handlers leave
off where they call `process_request`, `send_response` or `on_finish`, which are steps of
their own.

`ServiceData.sends` records the calls of `send_response`.
-/

namespace AsioStudy.HttpServer

/-- The operations, each under the name of its handler. -/
inductive Op
  | on_request_line_received
  | on_headers_received
  | on_response_sent
  deriving DecidableEq, Repr

inductive Point
  | on_request_line_received (ec : ErrorCode)
  | on_headers_received (ec : ErrorCode)
  | process_request
  | send_response
  | on_response_sent (ec : ErrorCode)
  | on_finish
  deriving DecidableEq, Repr

/-- What a step finds outside the service: whether the socket still shuts down, and the
files. -/
structure Input where
  shutdown : Bool
  fs : FileSystem

/-- A call of `send_response`. -/
structure SendCall where
  /-- The service at the call. -/
  service : Service
  /-- The buffers handed to `async_write`; `none` when it throws. -/
  response_buffers : Option (List Bytes)

structure ServiceData where
  service : Service
  sends : List SendCall

/-- Where the exit of a handler leads. -/
def Exit.effect (d : ServiceData) (go_on : Effect Op Point ServiceData) :
    Exit → Option (Effect Op Point ServiceData)
  | .go_on => some go_on
  | .send_response => some ⟨d, [], false, .goto .send_response⟩
  | .on_finish => some ⟨d, [], false, .goto .on_finish⟩
  | .loops => none

/-- The step of a handler. -/
def stepPoint (P : Platform) (input : Input) (d : ServiceData) :
    Point → Option (Effect Op Point ServiceData)
  | .on_request_line_received ec =>
      let (s, exit) := d.service.on_request_line_received ec
      let d := { d with service := s }
      exit.effect d ⟨d, [.on_headers_received], false, .ret⟩
  | .on_headers_received ec =>
      let (s, exit) := d.service.on_headers_received ec
      let d := { d with service := s }
      exit.effect d ⟨d, [], false, .goto .process_request⟩
  | .process_request =>
      match d.service.process_request P input.fs with
      | .error .threw => some ⟨d, [], false, .threw⟩
      | .error .undefined => some ⟨d, [], false, .undefined⟩
      | .ok s => some ⟨{ d with service := s }, [], false, .goto .send_response⟩
  | .send_response =>
      match d.service.send_response input.shutdown with
      | none => some ⟨{ d with sends := d.sends ++ [⟨d.service, none⟩] }, [], false, .threw⟩
      | some (s, response_buffers) =>
          some ⟨⟨s, d.sends ++ [⟨d.service, some response_buffers⟩]⟩, [.on_response_sent], false,
            .ret⟩
  -- the error is only printed
  | .on_response_sent _ =>
      if input.shutdown then some ⟨d, [], false, .goto .on_finish⟩
      else some ⟨d, [], false, .threw⟩
  | .on_finish => some ⟨d, [], true, .ret⟩

/-- The class `Service`; `start_handling` starts the read of the request line. -/
def service (P : Platform) : Program Op Point Input ServiceData where
  data := ⟨.new, []⟩
  first := .on_request_line_received
  receive
    | .on_request_line_received, received, d | .on_headers_received, received, d =>
        { d with service := { d.service with m_request := d.service.m_request ++ received } }
    | .on_response_sent, _, d => d
  entry
    | .on_request_line_received, ec => .on_request_line_received ec
    | .on_headers_received, ec => .on_headers_received ec
    | .on_response_sent, ec => .on_response_sent ec
  step p input d := stepPoint P input d p

/-- A loop that never ends has no next step. -/
theorem Exit.effect_eq_some {d : ServiceData} {go_on e : Effect Op Point ServiceData} {exit : Exit}
    (h : exit.effect d go_on = some e) :
    (exit = .go_on ∧ e = go_on) ∨
      (exit = .send_response ∧ e = ⟨d, [], false, .goto .send_response⟩) ∨
        (exit = .on_finish ∧ e = ⟨d, [], false, .goto .on_finish⟩) := by
  cases exit with
  | go_on => exact .inl ⟨rfl, (Option.some.inj h).symm⟩
  | send_response => exact .inr (.inl ⟨rfl, (Option.some.inj h).symm⟩)
  | on_finish => exact .inr (.inr ⟨rfl, (Option.some.inj h).symm⟩)
  | loops => exact absurd h (by simp [Exit.effect])

theorem Exit.effect_weight {d : ServiceData} {go_on e : Effect Op Point ServiceData} {exit : Exit}
    (hgo : go_on.weight = 1) (h : exit.effect d go_on = some e) : e.weight = 1 := by
  rcases Exit.effect_eq_some h with ⟨-, rfl⟩ | ⟨-, rfl⟩ | ⟨-, rfl⟩
  · exact hgo
  · rfl
  · rfl

/-- **Every step of a handler has exactly one continuation.** -/
theorem service_linear (P : Platform) : (service P).Linear := by
  intro p input d e he
  cases p with
  | on_request_line_received ec =>
      refine Exit.effect_weight ?_ he
      rfl
  | on_headers_received ec => exact Exit.effect_weight rfl he
  | process_request =>
      simp only [service, stepPoint] at he
      split at he <;> (obtain rfl := Option.some.inj he; rfl)
  | send_response =>
      simp only [service, stepPoint] at he
      split at he <;> (obtain rfl := Option.some.inj he; rfl)
  | on_response_sent ec =>
      simp only [service, stepPoint] at he
      split at he <;> (obtain rfl := Option.some.inj he; rfl)
  | on_finish => obtain rfl := Option.some.inj he; rfl

end AsioStudy.HttpServer
