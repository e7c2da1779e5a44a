import AsioStudy.HttpServer.Machine

/-!
# AsioStudy.HttpServer.Respond

The calls of `send_response` in the life of a service.

Up to the call the service is `Fresh`: status 200 and nothing of a response yet. The
branches that lead to `send_response` leave it `Ready`: with a status of the table, and for
any status but 200 without a file and without headers.
-/

namespace AsioStudy.HttpServer

variable {P : Platform} {s s' : Service} {ec : ErrorCode} {exit : Exit}

/-- Nothing of the response has been made yet. -/
structure Fresh (s : Service) : Prop where
  status : s.m_response_status_code = 200
  size : s.m_resource_size_bytes = 0
  headers : s.m_response_headers = []

/-- The service is ready for `send_response`. -/
structure Ready (s : Service) : Prop where
  /-- `http_status_table.at` finds the status. -/
  found : (Service.http_status_table.lookup s.m_response_status_code).isSome = true
  bare : s.m_response_status_code ≠ 200 →
    s.m_resource_size_bytes = 0 ∧ s.m_response_headers = []

theorem ready_of_status (code : UInt32)
    (hcode : (Service.http_status_table.lookup code).isSome = true)
    (hs : s.m_response_status_code = code) (hsize : s.m_resource_size_bytes = 0)
    (hheaders : s.m_response_headers = []) : Ready s :=
  ⟨by rw [hs]; exact hcode, fun _ => ⟨hsize, hheaders⟩⟩

/-- What the exit of a handler promises about a service that was fresh. -/
def Exit.Promises (s : Service) : Exit → Prop
  | .go_on => Fresh s
  | .send_response => Ready s
  | .on_finish | .loops => True

theorem error_check_promises (h : Fresh s) (hc : s.error_check ec = some (s', exit)) :
    exit.Promises s' := by
  simp only [Service.error_check] at hc
  split at hc
  · split at hc
    · obtain ⟨rfl, rfl⟩ := Prod.mk.inj (Option.some.inj hc)
      exact ready_of_status 413 (by decide) rfl h.size h.headers
    · obtain ⟨rfl, rfl⟩ := Prod.mk.inj (Option.some.inj hc)
      trivial
  · exact absurd hc (by simp)

theorem on_request_line_received_promises (ec : ErrorCode) (h : Fresh s) :
    (s.on_request_line_received ec).2.Promises (s.on_request_line_received ec).1 := by
  unfold Service.on_request_line_received
  cases hc : s.error_check ec with
  | some r => exact error_check_promises h hc
  | none =>
      simp only
      split
      · exact ready_of_status 501 (by decide) rfl h.size h.headers
      · split
        · exact ready_of_status 505 (by decide) rfl h.size h.headers
        · exact ⟨h.status, h.size, h.headers⟩

theorem on_headers_received_promises (ec : ErrorCode) (h : Fresh s) :
    (s.on_headers_received ec).2.Promises (s.on_headers_received ec).1 := by
  unfold Service.on_headers_received
  cases hc : s.error_check ec with
  | some r => exact error_check_promises h hc
  | none =>
      simp only
      split
      · trivial
      · exact ⟨h.status, h.size, h.headers⟩

/-! ### No handler allocates the buffer -/

theorem error_check_buffer (h : s.error_check ec = some (s', exit)) :
    s'.m_resource_buffer = s.m_resource_buffer := by
  simp only [Service.error_check] at h
  split at h
  · split at h
    · obtain ⟨rfl, -⟩ := Prod.mk.inj (Option.some.inj h)
      rfl
    · obtain ⟨rfl, -⟩ := Prod.mk.inj (Option.some.inj h)
      rfl
  · exact absurd h (by simp)

theorem on_request_line_received_buffer (s : Service) (ec : ErrorCode) :
    (s.on_request_line_received ec).1.m_resource_buffer = s.m_resource_buffer := by
  unfold Service.on_request_line_received
  cases hc : s.error_check ec with
  | some r => exact error_check_buffer hc
  | none =>
      simp only
      split
      · rfl
      · split <;> rfl

theorem on_headers_received_buffer (s : Service) (ec : ErrorCode) :
    (s.on_headers_received ec).1.m_resource_buffer = s.m_resource_buffer := by
  unfold Service.on_headers_received
  cases hc : s.error_check ec with
  | some r => exact error_check_buffer hc
  | none =>
      simp only
      split <;> rfl

/-! ### The response -/

/-- `process_request` leaves the size at 0 and the headers empty unless the status is
200. -/
theorem process_request_ready {fs : FileSystem} (h : Fresh s)
    (hp : s.process_request P fs = .ok s') : Ready s' := by
  unfold Service.process_request at hp
  split at hp
  · exact absurd hp (by simp)
  · obtain rfl := Except.ok.inj hp
    exact ready_of_status 404 (by decide) rfl h.size h.headers
  · obtain rfl := Except.ok.inj hp
    exact ready_of_status 500 (by decide) rfl h.size h.headers
  · simp only at hp
    split at hp
    · exact absurd hp (by simp)
    · obtain rfl := Except.ok.inj hp
      have hfound : (Service.http_status_table.lookup (200 : UInt32)).isSome = true := by decide
      exact ⟨by simpa [h.status] using hfound, fun hne => absurd h.status hne⟩

/-- The response of a service without a file and without headers. -/
theorem send_response_bare {shutdown : Bool} {response_buffers : List Bytes} (h : Ready s)
    (hne : s.m_response_status_code ≠ 200)
    (hsend : s.send_response shutdown = some (s', response_buffers)) :
    ∃ status, Service.http_status_table.lookup s.m_response_status_code = some status ∧
      response_buffers = [bytes "HTTP/1.1" ++ status ++ CRLF, CRLF] := by
  obtain ⟨hsize, hheaders⟩ := h.bare hne
  unfold Service.send_response at hsend
  split at hsend
  · obtain ⟨status, hstatus, he⟩ := Option.map_eq_some_iff.mp hsend
    obtain ⟨-, rfl⟩ := Prod.mk.inj he
    exact ⟨status, hstatus, by simp [hsize, hheaders, CRLF]⟩
  · exact absurd hsend (by simp)

/-! ### The file -/

/-- How a service without storage fails on a file: `exists` throws, or the file opens and its
size, as a `std::size_t`, is not 0. -/
def FileEntry.fault (P : Platform) : FileEntry → Option Fault
  | .inaccessible => some .threw
  | .absent | .closed | .opened _ false => none
  | .opened contents true =>
      if contents.length % (P.SIZE_MAX + 1) = 0 then none else some .undefined

/-- **`process_request` reads a file only into a null pointer.** -/
theorem process_request_eq_error {s : Service} (fs : FileSystem) (h : s.m_resource_buffer = none)
    (fault : Fault) : s.process_request P fs = .error fault ↔
      (fs.entry s.resource_file_path).fault P = some fault := by
  unfold Service.process_request
  cases fs.entry s.resource_file_path with
  | inaccessible => simp [FileEntry.fault]
  | absent => simp [FileEntry.fault]
  | closed => simp [FileEntry.fault]
  | opened contents seekable =>
      cases seekable with
      | false => simp [h, Service.readInto, FileEntry.fault]
      | true =>
          by_cases hsize : contents.length % (P.SIZE_MAX + 1) = 0
          · simp [h, Service.readInto, FileEntry.fault, hsize]
          · have hne : contents ≠ [] := by
              intro hnil
              exact hsize (by rw [hnil, List.length_nil, Nat.zero_mod])
            simp [h, Service.readInto, FileEntry.fault, hsize, hne]

/-- A service without storage goes on when the file does not make it fail. -/
theorem fault_eq_none_of_ok {s s' : Service} {fs : FileSystem} (h : s.m_resource_buffer = none)
    (hp : s.process_request P fs = .ok s') : (fs.entry s.resource_file_path).fault P = none := by
  by_contra hne
  obtain ⟨fault, hfault⟩ := Option.ne_none_iff_exists'.mp hne
  exact absurd (hp.symm.trans ((process_request_eq_error fs h fault).mpr hfault)) (by simp)

/-! ### The calls in every run -/

/-- What is known of a call of `send_response`. -/
structure SendCall.Proper (c : SendCall) : Prop where
  ready : Ready c.service
  bare : c.service.m_response_status_code ≠ 200 → ∀ response_buffers,
    c.response_buffers = some response_buffers →
      ∃ status, Service.http_status_table.lookup c.service.m_response_status_code = some status ∧
        response_buffers = [bytes "HTTP/1.1" ++ status ++ CRLF, CRLF]

/-- While an operation is pending: `send_response` has not been called, or the operation is
the write it has started. -/
def pendingInv : Op → ServiceData → Prop
  | .on_request_line_received, d | .on_headers_received, d => Fresh d.service ∧ d.sends = []
  | .on_response_sent, _ => True

/-- While a handler runs. -/
def runningInv : Point → ServiceData → Prop
  | .on_request_line_received _, d | .on_headers_received _, d | .process_request, d =>
      Fresh d.service ∧ d.sends = []
  | .send_response, d => Ready d.service ∧ d.sends = []
  | .on_response_sent _, _ | .on_finish, _ => True

/-- At all times. -/
structure SendsInv (d : ServiceData) : Prop where
  at_most_once : d.sends.length ≤ 1
  proper : ∀ c ∈ d.sends, c.Proper

theorem SendsInv.of_nil {d : ServiceData} (h : d.sends = []) : SendsInv d :=
  ⟨by simp [h], by simp [h]⟩

/-- The exits of a handler keep the invariant. -/
theorem Exit.effect_inv {d : ServiceData} {go_on e : Effect Op Point ServiceData}
    (hsends : d.sends = []) (hp : exit.Promises d.service)
    (hgo : exit = .go_on → (∀ op ∈ go_on.starts, pendingInv op go_on.data) ∧
      (∀ p, go_on.next = .goto p → runningInv p go_on.data) ∧ SendsInv go_on.data)
    (he : exit.effect d go_on = some e) :
    (∀ op ∈ e.starts, pendingInv op e.data) ∧ (∀ p, e.next = .goto p → runningInv p e.data) ∧
      SendsInv e.data := by
  rcases Exit.effect_eq_some he with ⟨hexit, rfl⟩ | ⟨rfl, rfl⟩ | ⟨rfl, rfl⟩
  · exact hgo hexit
  · refine ⟨by simp, ?_, .of_nil hsends⟩
    intro p hnext
    obtain rfl := Next.goto.inj hnext
    exact ⟨hp, hsends⟩
  · refine ⟨by simp, ?_, .of_nil hsends⟩
    intro p hnext
    obtain rfl := Next.goto.inj hnext
    trivial

theorem service_invariant (P : Platform) :
    (service P).Invariant pendingInv runningInv SendsInv := by
  refine ⟨⟨⟨rfl, rfl, rfl⟩, rfl⟩, .of_nil rfl, ?_, ?_⟩
  · intro op ec received d hop hd
    cases op with
    | on_request_line_received =>
        exact ⟨⟨⟨hop.1.status, hop.1.size, hop.1.headers⟩, hop.2⟩, hd.1, hd.2⟩
    | on_headers_received => exact ⟨⟨⟨hop.1.status, hop.1.size, hop.1.headers⟩, hop.2⟩, hd.1, hd.2⟩
    | on_response_sent => exact ⟨trivial, hd⟩
  · intro p input d e hp hd he
    cases p with
    | on_request_line_received ec =>
        have hpromise := on_request_line_received_promises ec hp.1
        refine Exit.effect_inv
          (d := { d with service := (d.service.on_request_line_received ec).1 })
          hp.2 hpromise ?_ he
        intro hexit
        rw [hexit] at hpromise
        refine ⟨?_, by simp, .of_nil hp.2⟩
        intro op hop
        obtain rfl := List.mem_singleton.mp hop
        exact ⟨hpromise, hp.2⟩
    | on_headers_received ec =>
        have hpromise := on_headers_received_promises ec hp.1
        refine Exit.effect_inv (d := { d with service := (d.service.on_headers_received ec).1 })
          hp.2 hpromise ?_ he
        intro hexit
        rw [hexit] at hpromise
        refine ⟨by simp, ?_, .of_nil hp.2⟩
        rintro p ⟨⟩
        exact ⟨hpromise, hp.2⟩
    | process_request =>
        simp only [service, stepPoint] at he
        split at he
        · obtain rfl := Option.some.inj he
          exact ⟨by simp, by simp, hd⟩
        · obtain rfl := Option.some.inj he
          exact ⟨by simp, by simp, hd⟩
        · next s' hs' =>
          obtain rfl := Option.some.inj he
          refine ⟨by simp, ?_, .of_nil hp.2⟩
          intro p hnext
          obtain rfl := Next.goto.inj hnext
          exact ⟨process_request_ready hp.1 hs', hp.2⟩
    | send_response =>
        simp only [service, stepPoint] at he
        split at he
        · obtain rfl := Option.some.inj he
          refine ⟨by simp, by simp, ?_⟩
          refine ⟨by simp [hp.2], ?_⟩
          simp only [hp.2, List.nil_append, List.mem_singleton, forall_eq]
          exact ⟨hp.1, by simp⟩
        · next s' response_buffers hs' =>
          obtain rfl := Option.some.inj he
          refine ⟨by simp [pendingInv], by simp, ?_⟩
          refine ⟨by simp [hp.2], ?_⟩
          simp only [hp.2, List.nil_append, List.mem_singleton, forall_eq]
          refine ⟨hp.1, ?_⟩
          rintro hne buffers ⟨⟩
          exact send_response_bare hp.1 hne hs'
    | on_response_sent ec =>
        simp only [service, stepPoint] at he
        split at he
        · obtain rfl := Option.some.inj he
          refine ⟨by simp, ?_, hd⟩
          rintro p ⟨⟩
          trivial
        · obtain rfl := Option.some.inj he
          exact ⟨by simp, by simp, hd⟩
    | on_finish =>
        obtain rfl := Option.some.inj he
        exact ⟨by simp, by simp, hd⟩

/-! ### At most one response -/

/-- What holds of the responses of a service in every state. -/
structure RespondsOnce (o : AsyncObject Op Point ServiceData) : Prop where
  at_most_once : o.data.sends.length ≤ 1
  /-- The status is in the table, and any response but a 200 is its status line and the empty
  line. -/
  proper : ∀ c ∈ o.data.sends, c.Proper
  /-- Where `send_response` is about to run, nothing else of the service is going on, it has
  not been deleted, and has not responded. -/
  alone : ∀ i : Nat, o.running[i]? = some .send_response →
    o.pending = [] ∧ o.running = [.send_response] ∧ o.deleted = 0 ∧ o.data.sends = [] ∧
      Ready o.data.service

/-- **At most one response, and none after deletion**, in every reachable state of every
service. -/
theorem reachable_respondsOnce {o : AsyncObject Op Point ServiceData}
    (h : (service P).machine.Reachable o) : RespondsOnce o := by
  have hl := service_linear P
  have hholds := (service_invariant P).holds hl h
  refine ⟨hholds.always.at_most_once, hholds.always.proper, ?_⟩
  intro i hi
  obtain ⟨hpending, hrunning, -, hdeleted, -⟩ :=
    AsyncObject.only_running (weight_eq_one hl h) hi
  obtain ⟨hready, hsends⟩ := hholds.running .send_response (List.mem_of_getElem? hi)
  exact ⟨hpending, hrunning, hdeleted, hsends, hready⟩

/-- No file exists, and every call succeeds. -/
def noFiles : Input := ⟨true, fun _ => .absent⟩

/-- A service that answers a request for a missing file and is deleted. -/
def notFoundRun : List (ObjectAction Input) :=
  [.complete 0 .success (bytes "GET /a HTTP/1.1\r\nb:c\r\n\r\n"), .run 0 noFiles,
    .complete 0 .success [], .run 0 noFiles, .run 0 noFiles, .run 0 noFiles,
    .complete 0 .success [], .run 0 noFiles, .run 0 noFiles]

theorem reachable_respondsOnce_notFound :
    ∃ o, (service .llp64).machine.exec (service .llp64).start notFoundRun = some o ∧
      o.deleted = 1 ∧
      o.data.sends.map (·.response_buffers) = [some [bytes "HTTP/1.1404 Not Found\r\n", CRLF]] ∧
      RespondsOnce o := by
  have hrun : ((service .llp64).machine.exec (service .llp64).start notFoundRun).map
      (fun o => (o.deleted, o.data.sends.map (·.response_buffers))) =
      some (1, [some [bytes "HTTP/1.1404 Not Found\r\n", CRLF]]) := by decide
  obtain ⟨o, ho, he⟩ := Option.map_eq_some_iff.mp hrun
  obtain ⟨hdeleted, hsends⟩ := Prod.mk.inj he
  exact ⟨o, ho, hdeleted, hsends, reachable_respondsOnce (TransitionSystem.reachable_of_exec ho)⟩

end AsioStudy.HttpServer
