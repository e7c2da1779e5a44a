import AsioStudy.AsyncServer.Liveness
import AsioStudy.HttpServer.Connections
import AsioStudy.HttpServer.HeaderLoop

/-!
# AsioStudy.HttpServer.Liveness

The handlers of the HTTP server come to their end: no step takes forever, every step leads
down, and `Stop` returns, unless a handler fails: then the process ends.
-/

namespace AsioStudy.HttpServer

open AsyncServer

def rankOp : Op → Nat
  | .on_request_line_received => 9
  | .on_headers_received => 7
  | .on_response_sent => 3

def rankPoint : Point → Nat
  | .on_request_line_received _ => 8
  | .on_headers_received _ => 6
  | .process_request => 5
  | .send_response => 4
  | .on_response_sent _ => 2
  | .on_finish => 1

theorem Exit.effect_isSome {d : ServiceData} {go_on : Effect Op Point ServiceData} {exit : Exit}
    (h : exit ≠ .loops) : (exit.effect d go_on).isSome = true := by
  cases exit with
  | loops => exact absurd rfl h
  | _ => rfl

theorem on_request_line_received_ne_loops (s : Service) (ec : ErrorCode) :
    (s.on_request_line_received ec).2 ≠ .loops := by
  unfold Service.on_request_line_received
  cases hc : s.error_check ec with
  | some r => exact error_check_ne_loops hc
  | none =>
      simp only
      split
      · exact nofun
      · split <;> exact nofun

/-- No step of a handler takes forever. -/
theorem stepPoint_isSome (P : Platform) (input : Input) (d : ServiceData) (p : Point) :
    (stepPoint P input d p).isSome = true := by
  cases p with
  | on_request_line_received ec =>
      exact Exit.effect_isSome (on_request_line_received_ne_loops d.service ec)
  | on_headers_received ec => exact Exit.effect_isSome (on_headers_received_ne_loops d.service ec)
  | on_finish => rfl
  | _ =>
      simp only [stepPoint]
      split <;> rfl

theorem service_total (P : Platform) : (service P).Total := by
  intro p d
  exact ⟨⟨true, fun _ => .absent⟩, stepPoint_isSome P ⟨true, fun _ => .absent⟩ d p⟩

/-- The steps that come after a step of a handler. -/
theorem Exit.effect_next {d : ServiceData} {go_on e : Effect Op Point ServiceData} {exit : Exit}
    {rank : Nat} (h4 : 4 < rank) (hstarts : ∀ op ∈ go_on.starts, rankOp op < rank)
    (hgoto : ∀ p, go_on.next = .goto p → rankPoint p < rank) (he : exit.effect d go_on = some e) :
    (∀ op ∈ e.starts, rankOp op < rank) ∧ ∀ p, e.next = .goto p → rankPoint p < rank := by
  rcases Exit.effect_eq_some he with ⟨-, rfl⟩ | ⟨-, rfl⟩ | ⟨-, rfl⟩
  · exact ⟨hstarts, hgoto⟩
  · refine ⟨by simp, ?_⟩
    rintro p ⟨⟩
    exact h4
  · refine ⟨by simp, ?_⟩
    rintro p ⟨⟩
    simp only [rankPoint]
    omega

theorem stepPoint_next {input : Input} {d : ServiceData} {p : Point}
    {e : Effect Op Point ServiceData} (he : stepPoint P input d p = some e) :
    (∀ op ∈ e.starts, rankOp op < rankPoint p) ∧
      ∀ p', e.next = .goto p' → rankPoint p' < rankPoint p := by
  cases p with
  | on_request_line_received ec =>
      refine Exit.effect_next (by simp [rankPoint]) ?_ ?_ he
      · simp [rankOp, rankPoint]
      · exact by simp
  | on_headers_received ec =>
      refine Exit.effect_next (by simp [rankPoint]) (by simp) ?_ he
      rintro p ⟨⟩
      simp [rankPoint]
  | process_request =>
      simp only [stepPoint] at he
      split at he
      · obtain rfl := Option.some.inj he
        exact ⟨by simp, by simp⟩
      · obtain rfl := Option.some.inj he
        exact ⟨by simp, by simp⟩
      · obtain rfl := Option.some.inj he
        refine ⟨by simp, ?_⟩
        intro p hnext
        obtain rfl := Next.goto.inj hnext
        simp [rankPoint]
  | send_response =>
      simp only [stepPoint] at he
      split at he
      · obtain rfl := Option.some.inj he
        exact ⟨by simp, by simp⟩
      · obtain rfl := Option.some.inj he
        exact ⟨by simp [rankOp, rankPoint], by simp⟩
  | on_response_sent ec =>
      simp only [stepPoint] at he
      split at he
      · obtain rfl := Option.some.inj he
        refine ⟨by simp, ?_⟩
        rintro p ⟨⟩
        simp [rankPoint]
      · obtain rfl := Option.some.inj he
        exact ⟨by simp, by simp⟩
  | on_finish =>
      obtain rfl := Option.some.inj he
      exact ⟨by simp, by simp⟩

theorem service_ranked (P : Platform) : (service P).Ranked rankOp rankPoint where
  pos p := by cases p <;> simp [rankPoint]
  entry op ec := by cases op <;> exact Nat.lt_succ_self _
  starts he := (stepPoint_next he).1
  goto he := (stepPoint_next he).2 _

/-- The steps that are left in a handler. -/
def depth : Point → Nat
  | .on_headers_received _ => 3
  | .on_request_line_received _ | .process_request | .on_response_sent _ => 2
  | .send_response | .on_finish => 1

theorem Exit.effect_goto {d : ServiceData} {go_on e : Effect Op Point ServiceData} {exit : Exit}
    {p : Point} (he : exit.effect d go_on = some e) (hnext : e.next = .goto p) :
    p = .send_response ∨ p = .on_finish ∨ go_on.next = .goto p := by
  rcases Exit.effect_eq_some he with ⟨-, rfl⟩ | ⟨-, rfl⟩ | ⟨-, rfl⟩
  · exact .inr (.inr hnext)
  · exact .inl (Next.goto.inj hnext).symm
  · exact .inr (.inl (Next.goto.inj hnext).symm)

theorem service_handlersEnd (P : Platform) : (service P).HandlersEnd depth where
  pos p := by cases p <;> simp [depth]
  goto := by
    intro p input d e p' he hnext
    cases p with
    | on_request_line_received ec =>
        rcases Exit.effect_goto he hnext with rfl | rfl | hgo
        · simp [depth]
        · simp [depth]
        · exact absurd hgo (by simp)
    | on_headers_received ec =>
        rcases Exit.effect_goto he hnext with rfl | rfl | hgo
        · simp [depth]
        · simp [depth]
        · obtain rfl := Next.goto.inj hgo
          simp [depth]
    | process_request =>
        simp only [service, stepPoint] at he
        split at he <;> obtain rfl := Option.some.inj he
        · exact absurd hnext (by simp)
        · exact absurd hnext (by simp)
        · obtain rfl := Next.goto.inj hnext
          simp [depth]
    | send_response =>
        simp only [service, stepPoint] at he
        split at he <;> (obtain rfl := Option.some.inj he; exact absurd hnext (by simp))
    | on_response_sent ec =>
        simp only [service, stepPoint] at he
        split at he <;> obtain rfl := Option.some.inj he
        · obtain rfl := Next.goto.inj hnext
          simp [depth]
        · exact absurd hnext (by simp)
    | on_finish =>
        obtain rfl := Option.some.inj he
        exact absurd hnext (by simp)

/-! ### `Server::Stop` -/

variable {P : Platform} {thread_pool_size : Nat} {s s' : ServerState} {as : List (Action Input)}

instance (o : AsyncObject Op Point ServiceData) : Decidable (NotFailed o) :=
  decidable_of_iff (o.threw = 0 ∧ o.undefined = 0)
    ⟨fun h => ⟨h.1, h.2⟩, fun h => ⟨h.no_exception, h.defined⟩⟩

/-- No handler has failed. -/
def Alive (s : ServerState) : Prop := ∀ x ∈ s.services, NotFailed x.service

instance (s : ServerState) : Decidable (Alive s) :=
  inferInstanceAs (Decidable (∀ x ∈ s.services, NotFailed x.service))

/-- The server as a process. An exception that leaves a handler leaves `m_ios.run()` and the
function of its thread, which ends the process; and nothing is known of it after undefined
behaviour. -/
def process (P : Platform) (thread_pool_size : Nat) :
    TransitionSystem ServerState (Action Input) where
  init := .init
  step s a := if Alive s then step (service P) thread_pool_size s a else none

theorem process_step (hs : (process P thread_pool_size).step s a = some s') :
    Alive s ∧ step (service P) thread_pool_size s a = some s' := by
  by_cases halive : Alive s
  · exact ⟨halive, by simpa [process, halive] using hs⟩
  · exact absurd hs (by simp [process, halive])

theorem process_exec (he : (process P thread_pool_size).exec s as = some s') :
    (machine (service P) thread_pool_size).exec s as = some s' := by
  induction as generalizing s with
  | nil => exact he
  | cons a as ih =>
      rw [TransitionSystem.exec_cons, Option.bind_eq_some_iff] at he
      obtain ⟨t, hst, hte⟩ := he
      exact TransitionSystem.exec_cons_of_step (process_step hst).2 (ih hte)

theorem process_reachable (h : (process P thread_pool_size).Reachable s) :
    (machine (service P) thread_pool_size).Reachable s := by
  refine TransitionSystem.Reachable.invariant (M := process P thread_pool_size)
    (P := fun s => (machine (service P) thread_pool_size).Reachable s) .init ?_ h
  intro s a s' _ hi hs
  exact hi.step (process_step hs).2

/-- How a run of the process goes on once `Stop` has called `m_ios.stop()`. -/
structure StopReturns (P : Platform) (thread_pool_size : Nat) (as : List (Action Input))
    (s : ServerState) : Prop where
  /-- Each thread of the pool takes at most three more steps. -/
  bounded : as.length ≤ 3 * thread_pool_size + 1
  /-- Where nothing can happen any more, `Stop` has returned or a handler has failed. -/
  returned : (process P thread_pool_size).Quiescent (fun _ => true) s →
    s.pc = .returned ∨ ¬ Alive s
  /-- When it has returned no handler runs. -/
  idle : s.pc = .returned → s.running = 0

/-- **`Stop` returns as long as no handler fails**: after `m_ios.stop()` each thread of the pool
takes at most three more steps, whatever request it was working on. -/
theorem stop_returns (hr : (process P thread_pool_size).Reachable s) (hpc : s.pc = .join)
    (he : (process P thread_pool_size).exec s as = some s') :
    StopReturns P thread_pool_size as s' := by
  have hdepth : ∀ p, depth p ≤ 3 := by
    intro p
    cases p <;> simp [depth]
  have hstops := stops (service_handlersEnd P) (service_total P) hdepth (Nat.le_refl 3)
    (process_reachable hr) hpc (process_exec he)
  refine ⟨hstops.bounded, ?_, hstops.idle⟩
  intro hstill
  by_cases halive : Alive s'
  · refine .inl (hstops.returned ?_)
    intro a
    simpa [process, halive] using hstill a rfl
  · exact .inr halive

/-- `Stop` is called while the headers of a request are being processed. -/
def stopRun : List (Action Input) :=
  [.server, .accept 0 .success, .onAccept 0, .onAccept 0, .onAccept 0,
    .service 0 (.complete 0 .success (bytes "GET /a HTTP/1.1\r\nb:c\r\n\r\n")),
    .service 0 (.run 0 noFiles), .service 0 (.complete 0 .success []), .server, .server]

/-- The handler goes on to the start of the response, and `Stop` returns. -/
def joinRun : List (Action Input) :=
  [.service 0 (.run 0 noFiles), .service 0 (.run 0 noFiles), .service 0 (.run 0 noFiles), .server]

theorem stop_returns_stopRun :
    ∃ s s', (process .llp64 1).exec (process .llp64 1).init stopRun = some s ∧ s.pc = .join ∧
      (process .llp64 1).exec s joinRun = some s' ∧ s'.pc = .returned ∧
      StopReturns .llp64 1 joinRun s' := by
  have hrun : ((process .llp64 1).exec (process .llp64 1).init stopRun).map (·.pc) =
      some .join := by decide
  have hrest : (((process .llp64 1).exec (process .llp64 1).init stopRun).bind
      fun s => (process .llp64 1).exec s joinRun).map (·.pc) = some .returned := by decide
  obtain ⟨s, hs, hpc⟩ := Option.map_eq_some_iff.mp hrun
  rw [hs, Option.bind_some] at hrest
  obtain ⟨s', hs', hpc'⟩ := Option.map_eq_some_iff.mp hrest
  exact ⟨s, s', hs, hpc, hs', hpc', stop_returns (TransitionSystem.reachable_of_exec hs) hpc hs'⟩

end AsioStudy.HttpServer
