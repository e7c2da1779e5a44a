import AsioStudy.AsyncServer.Conservation
import AsioStudy.HttpServer.Respond

/-!
# AsioStudy.HttpServer.Connections

The connections of the HTTP server, of which there may be any number.

A service that does not fail has one pending operation or is deleted, whatever its
operations return. It fails in three ways: `m_sock->shutdown` throws when it does not
succeed, `boost::filesystem::exists` may throw, and `process_request` reads a file into
`m_resource_buffer`, which is never allocated (`StepSucceeds`).
-/

namespace AsioStudy.HttpServer

variable {P : Platform} {thread_pool_size : Nat} {o o' : AsyncObject Op Point ServiceData}
  {a : ObjectAction Input}

/-! ### The buffer is never allocated -/

theorem readInto_null {data : Bytes} {storage : Option Bytes}
    (h : Service.readInto none data = some storage) : storage = none := by
  by_cases hdata : data = [] <;> simp_all [Service.readInto]

theorem process_request_buffer {s s' : Service} {fs : FileSystem} (h : s.m_resource_buffer = none)
    (hp : s.process_request P fs = .ok s') : s'.m_resource_buffer = none := by
  unfold Service.process_request at hp
  split at hp
  · exact absurd hp (by simp)
  · obtain rfl := Except.ok.inj hp
    exact h
  · obtain rfl := Except.ok.inj hp
    exact h
  · simp only at hp
    split at hp
    · exact absurd hp (by simp)
    · next hread =>
      obtain rfl := Except.ok.inj hp
      exact readInto_null (h ▸ hread)

theorem send_response_buffer {s s' : Service} {shutdown : Bool} {response_buffers : List Bytes}
    (hs : s.send_response shutdown = some (s', response_buffers)) :
    s'.m_resource_buffer = s.m_resource_buffer := by
  unfold Service.send_response at hs
  split at hs
  · obtain ⟨status, -, he⟩ := Option.map_eq_some_iff.mp hs
    obtain ⟨rfl, -⟩ := Prod.mk.inj he
    rfl
  · exact absurd hs (by simp)

theorem Exit.effect_data {d : ServiceData} {go_on e : Effect Op Point ServiceData} {exit : Exit}
    (hgo : go_on.data = d) (h : exit.effect d go_on = some e) : e.data = d := by
  rcases Exit.effect_eq_some h with ⟨-, rfl⟩ | ⟨-, rfl⟩ | ⟨-, rfl⟩
  · exact hgo
  · rfl
  · rfl

theorem service_buffer_invariant (P : Platform) : (service P).Invariant (fun _ _ => True)
    (fun _ _ => True) (fun d => d.service.m_resource_buffer = none) := by
  refine ⟨trivial, rfl, ?_, ?_⟩
  · intro op ec received d _ hd
    cases op <;> exact ⟨trivial, hd⟩
  · intro p input d e _ hd he
    refine ⟨fun _ _ => trivial, fun _ _ => trivial, ?_⟩
    cases p with
    | on_request_line_received ec =>
        rw [Exit.effect_data rfl he]
        exact (on_request_line_received_buffer d.service ec).trans hd
    | on_headers_received ec =>
        rw [Exit.effect_data rfl he]
        exact (on_headers_received_buffer d.service ec).trans hd
    | process_request =>
        simp only [service, stepPoint] at he
        split at he
        · obtain rfl := Option.some.inj he
          exact hd
        · obtain rfl := Option.some.inj he
          exact hd
        · next s' hs' =>
          obtain rfl := Option.some.inj he
          exact process_request_buffer hd hs'
    | send_response =>
        simp only [service, stepPoint] at he
        split at he
        · obtain rfl := Option.some.inj he
          exact hd
        · next s' response_buffers hs' =>
          obtain rfl := Option.some.inj he
          exact (send_response_buffer hs').trans hd
    | on_response_sent ec =>
        simp only [service, stepPoint] at he
        split at he <;> (obtain rfl := Option.some.inj he; exact hd)
    | on_finish =>
        obtain rfl := Option.some.inj he
        exact hd

/-! ### Failures -/

/-- This step of a handler does not fail. -/
def Point.Succeeds (P : Platform) (input : Input) (s : Service) : Point → Prop
  | .send_response | .on_response_sent _ => input.shutdown = true
  | .process_request => (input.fs.entry s.resource_file_path).fault P = none
  | _ => True

instance (input : Input) (s : Service) (p : Point) : Decidable (p.Succeeds P input s) :=
  match p with
  | .send_response | .on_response_sent _ => inferInstanceAs (Decidable (_ = true))
  | .process_request => inferInstanceAs (Decidable (_ = none))
  | .on_request_line_received _ | .on_headers_received _ | .on_finish => isTrue trivial

/-- Every `m_sock->shutdown` of the step succeeds; `exists` does not throw, and a file that it
opens has the size 0 or cannot be sized. -/
def StepSucceeds (P : Platform) (o : AsyncObject Op Point ServiceData) :
    ObjectAction Input → Prop
  | .run i input => ∀ p ∈ o.running[i]?, p.Succeeds P input o.data.service
  | .complete _ _ _ => True

instance (o : AsyncObject Op Point ServiceData) (a : ObjectAction Input) :
    Decidable (StepSucceeds P o a) :=
  match a with
  | .run i input => inferInstanceAs (Decidable (∀ p ∈ o.running[i]?, p.Succeeds P input _))
  | .complete _ _ _ => isTrue trivial

/-- The step does not fail. -/
def Next.Fine (next : Next Point) : Prop := next.throws = false ∧ next.isUndefined = false

theorem Exit.effect_fine {d : ServiceData} {go_on e : Effect Op Point ServiceData} {exit : Exit}
    (hgo : Next.Fine go_on.next) (h : exit.effect d go_on = some e) : Next.Fine e.next := by
  rcases Exit.effect_eq_some h with ⟨-, rfl⟩ | ⟨-, rfl⟩ | ⟨-, rfl⟩
  · exact hgo
  · exact ⟨rfl, rfl⟩
  · exact ⟨rfl, rfl⟩

theorem send_response_eq_none {s : Service} (shutdown : Bool) (h : Ready s) :
    s.send_response shutdown = none ↔ shutdown = false := by
  cases shutdown with
  | false => simp [Service.send_response]
  | true =>
      obtain ⟨status, hstatus⟩ := Option.isSome_iff_exists.mp h.found
      simp [Service.send_response, hstatus]

/-- **A step fails exactly when its `shutdown` or its look at the file does.** -/
theorem stepPoint_fine {input : Input} {d : ServiceData} {p : Point}
    {e : Effect Op Point ServiceData} (hp : runningInv p d)
    (hbuffer : d.service.m_resource_buffer = none) (he : stepPoint P input d p = some e) :
    Next.Fine e.next ↔ p.Succeeds P input d.service := by
  cases p with
  | on_request_line_received ec =>
      refine iff_of_true (Exit.effect_fine ?_ he) trivial
      exact ⟨rfl, rfl⟩
  | on_headers_received ec =>
      refine iff_of_true (Exit.effect_fine ?_ he) trivial
      exact ⟨rfl, rfl⟩
  | process_request =>
      simp only [stepPoint] at he
      have hfault := process_request_eq_error (P := P) input.fs hbuffer
      split at he
      · next hs' =>
        obtain rfl := Option.some.inj he
        simp [Next.Fine, Next.throws, Point.Succeeds, (hfault _).mp hs']
      · next hs' =>
        obtain rfl := Option.some.inj he
        simp [Next.Fine, Next.isUndefined, Point.Succeeds, (hfault _).mp hs']
      · next s' hs' =>
        obtain rfl := Option.some.inj he
        have hok := fault_eq_none_of_ok hbuffer hs'
        simp [Next.Fine, Next.isUndefined, Next.throws, Point.Succeeds, hok]
  | send_response =>
      simp only [stepPoint] at he
      have hnone := send_response_eq_none input.shutdown hp.1
      split at he
      · next hs' =>
        obtain rfl := Option.some.inj he
        simp [Next.Fine, Next.throws, Point.Succeeds, hnone.mp hs']
      · next s' response_buffers hs' =>
        obtain rfl := Option.some.inj he
        have hok : input.shutdown = true := by
          by_contra hbad
          rw [Bool.not_eq_true] at hbad
          exact absurd (hs'.symm.trans (hnone.mpr hbad)) (by simp)
        simp [Next.Fine, Next.isUndefined, Next.throws, Point.Succeeds, hok]
  | on_response_sent ec =>
      simp only [stepPoint] at he
      split at he
      · next hok =>
        obtain rfl := Option.some.inj he
        simp [Next.Fine, Next.isUndefined, Next.throws, Point.Succeeds, hok]
      · next hbad =>
        obtain rfl := Option.some.inj he
        simp [Next.Fine, Next.throws, Point.Succeeds, hbad]
  | on_finish =>
      obtain rfl := Option.some.inj he
      exact iff_of_true ⟨rfl, rfl⟩ trivial

/-- No handler of the service has failed. -/
structure NotFailed (o : AsyncObject Op Point ServiceData) : Prop where
  no_exception : o.threw = 0
  defined : o.undefined = 0

theorem notFailed_step_iff (hr : (service P).machine.Reachable o) (hi : NotFailed o)
    (hs : (service P).stepObject o a = some o') : NotFailed o' ↔ StepSucceeds P o a := by
  have hl := service_linear P
  cases stepObject_inv hs with
  | complete _ => exact iff_of_true ⟨hi.no_exception, hi.defined⟩ trivial
  | @run i input p e hp he =>
      have hrunning := ((service_invariant P).holds hl hr).running p (List.mem_of_getElem? hp)
      have hbuffer := ((service_buffer_invariant P).holds hl hr).always
      have hiff := stepPoint_fine hrunning hbuffer he
      have hperform : NotFailed (o.perform i e) ↔ Next.Fine e.next := by
        constructor
        · intro h
          obtain ⟨hthrew, hundefined⟩ := h
          simp only [AsyncObject.perform, hi.no_exception, hi.defined] at hthrew hundefined
          exact ⟨by simpa using hthrew, by simpa using hundefined⟩
        · intro h
          obtain ⟨hthrows, hundefined⟩ := h
          exact ⟨by simp [AsyncObject.perform, hi.no_exception, hthrows],
            by simp [AsyncObject.perform, hi.defined, hundefined]⟩
      rw [hperform, hiff]
      simp [StepSucceeds, hp]

theorem ReachableUnder.notFailed (h : (service P).machine.ReachableUnder (StepSucceeds P) o) :
    NotFailed o := by
  refine h.invariant (P := NotFailed) ⟨rfl, rfl⟩ ?_
  intro o a o' hr hi hok hs
  exact (notFailed_step_iff hr.reachable hi hs).mpr hok

/-! ### All connections -/

abbrev ServerState := AsyncServer.State Op Point ServiceData

/-- The step of the server is one of a service that does not fail. -/
def ConnectionsSucceed (P : Platform) (s : ServerState) : AsyncServer.Action Input → Prop
  | .service j a => ∀ x ∈ s.services[j]?, StepSucceeds P x.service a
  | _ => True

instance (s : ServerState) (a : AsyncServer.Action Input) : Decidable (ConnectionsSucceed P s a) :=
  match a with
  | .service j a => inferInstanceAs (Decidable (∀ x ∈ s.services[j]?, StepSucceeds P x.service a))
  | .server | .accept _ _ | .onAccept _ => isTrue trivial

/-- No exception has left a handler of a service, and each service that runs no handler has
one pending operation or was deleted once. -/
structure AllKept (s : ServerState) : Prop where
  not_failed : ∀ x ∈ s.services, NotFailed x.service
  pending_or_deleted : ∀ x ∈ s.services, x.service.running = [] →
    x.service.pending.length = 1 ∧ x.service.deleted = 0 ∨
      x.service.pending = [] ∧ x.service.deleted = 1

theorem ReachableUnder.allKept {s : ServerState} (h : (AsyncServer.machine (service P)
    thread_pool_size).ReachableUnder (ConnectionsSucceed P) s) : AllKept s := by
  have hservice : ∀ x ∈ s.services,
      (service P).machine.ReachableUnder (StepSucceeds P) x.service :=
    AsyncServer.ReachableUnder.service (fun s j a x hx hok => hok x hx) h
  refine ⟨fun x hx => ReachableUnder.notFailed (hservice x hx), ?_⟩
  intro x hx hrunning
  have hnot := ReachableUnder.notFailed (hservice x hx)
  have hw := weight_eq_one (service_linear P) (hservice x hx).reachable
  exact AsyncObject.pending_or_deleted hw hrunning hnot.no_exception hnot.defined

/-- **No connection is leaked or brings the server down as long as `shutdown` succeeds, `exists`
does not throw and no file is read**, whatever the reads and writes return; and the first step
that does not meet this condition fails. -/
theorem allKept_iff_connectionsSucceed {s : ServerState} (h : (AsyncServer.machine (service P)
    thread_pool_size).ReachableUnder (ConnectionsSucceed P) s) :
    AllKept s ∧ ∀ a s', AsyncServer.step (service P) thread_pool_size s a = some s' →
      (AllKept s' ↔ ConnectionsSucceed P s a) := by
  refine ⟨ReachableUnder.allKept h, ?_⟩
  intro a s' hs
  refine ⟨fun hkept => ?_, fun hok => ReachableUnder.allKept (h.step hok hs)⟩
  cases AsyncServer.step_inv hs with
  | @service j a x o hx ho _ =>
      intro y hy
      obtain rfl : x = y := Option.some.inj (hx.symm.trans hy)
      have hmem : x ∈ s.services := List.mem_of_getElem? hx
      have hnot := (ReachableUnder.allKept h).not_failed x hmem
      have hj : j < s.services.length := (List.getElem?_eq_some_iff.mp hx).1
      have hnot' : NotFailed o := hkept.not_failed _ (List.mem_set hj { x with service := o })
      exact (notFailed_step_iff (AsyncServer.reachable_service h.reachable x hmem) hnot ho).mp hnot'
  | _ => trivial

/-- A connection is accepted and asks for a missing file, up to the call of
`send_response`. -/
def requestRun : List (AsyncServer.Action Input) :=
  [.server, .accept 0 .success, .onAccept 0, .onAccept 0, .onAccept 0,
    .service 0 (.complete 0 .success (bytes "GET /a HTTP/1.1\r\nb:c\r\n\r\n")),
    .service 0 (.run 0 noFiles), .service 0 (.complete 0 .success []),
    .service 0 (.run 0 noFiles), .service 0 (.run 0 noFiles)]

/-- The response is sent, its write fails, and the service is deleted. -/
def responseRun : List (AsyncServer.Action Input) :=
  [.service 0 (.run 0 noFiles), .service 0 (.complete 0 .operation_aborted []),
    .service 0 (.run 0 noFiles), .service 0 (.run 0 noFiles)]

theorem allKept_iff_connectionsSucceed_served :
    ∃ s, (AsyncServer.machine (service .llp64) 2).execUnder (ConnectionsSucceed .llp64) .init
        (requestRun ++ responseRun) = some s ∧
      s.services.map (·.service.deleted) = [1] ∧ AllKept s := by
  have hrun : ((AsyncServer.machine (service .llp64) 2).execUnder (ConnectionsSucceed .llp64) .init
      (requestRun ++ responseRun)).map (fun s => s.services.map (·.service.deleted)) =
      some [1] := by decide
  obtain ⟨s, hs, hdeleted⟩ := Option.map_eq_some_iff.mp hrun
  exact ⟨s, hs, hdeleted, (allKept_iff_connectionsSucceed
    (TransitionSystem.reachableUnder_of_execUnder hs)).1⟩

theorem not_allKept_shutdown :
    ¬ ∀ P thread_pool_size s,
      (AsyncServer.machine (service P) thread_pool_size).Reachable s → AllKept s := by
  intro hall
  have hrun : ((AsyncServer.machine (service .llp64) 2).exec .init
      (requestRun ++ [.service 0 (.run 0 ⟨false, noFiles.fs⟩)])).map
        (fun s => s.services.map (·.service.threw)) = some [1] := by decide
  obtain ⟨s, hs, hthrew⟩ := Option.map_eq_some_iff.mp hrun
  obtain ⟨x, hx, hone⟩ := List.mem_map.mp (hthrew ▸ List.mem_singleton_self 1)
  have hkept := hall .llp64 2 s (TransitionSystem.reachable_of_exec hs)
  exact absurd (hkept.not_failed x hx).no_exception (by omega)

end AsioStudy.HttpServer
