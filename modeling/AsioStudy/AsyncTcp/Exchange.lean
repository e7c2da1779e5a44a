import AsioStudy.AsyncTcp.Services

/-!
# AsioStudy.AsyncTcp.Exchange

What a callback that reports success has been given, from end to end (`exchanges_sound`): the
line of the server, sent by the one service that has read the request of this very session, and
nothing but it. Any number of sessions, services, threads and cancellations may go on meanwhile.

The argument puts three things together: `Linked` for what has gone out of the session,
`Attended` for what its service has made of that, and `Delivered` for what the session has read.
-/

namespace AsioStudy.AsyncTcp

open AsyncServer (Served)
open AsyncTcpClient (SessionId CallbackArgs computationRequest firstLine)
open AsyncTcpServer (Service service)

variable {thread_pool_size : Nat} {s s' : JointState ClientState ServerState Net} {e : Event}
  {es : List Event} {c : ClientState} {v : ServerState} {net net' : Net} {S T : SessionId}
  {j : Nat}

/-! ### The texts -/

theorem isLine_request (duration_sec : UInt32) : IsLine (computationRequest duration_sec) :=
  isLine_number (by decide) duration_sec.toNat

theorem isLine_response : IsLine (bytes "Response\n") := ⟨bytes "Response", by decide, by decide⟩

/-! ### What the sessions have read -/

/-- The completions of the read of a session. -/
def readsOf (S : SessionId) (es : List Event) : List (ErrorCode × Bytes) :=
  (es.filterMap Event.left).filterMap (AsyncTcpClient.Action.readOf S)

theorem readsOf_concat (S : SessionId) (es : List Event) (e : Event) :
    readsOf S (es ++ [e]) =
      readsOf S es ++ (e.left.bind (AsyncTcpClient.Action.readOf S)).toList := by
  rw [readsOf, readsOf, List.filterMap_append, List.filterMap_append]
  cases hleft : e.left with
  | none => simp [hleft]
  | some a => cases hread : a.readOf S <;> simp [hleft, hread]

/-- What a session has read is what the network has delivered to it. -/
structure Delivered (es : List Event) (net : Net) (S : SessionId) : Prop where
  received : ((readsOf S es).map Prod.snd).flatten = (net.response S).received
  line : ∀ r ∈ readsOf S es, r.1.value = 0 → LF ∈ r.2

/-- An event that is no read of the session. -/
theorem Delivered.other (h : Delivered es net S)
    (he : e.left.bind (AsyncTcpClient.Action.readOf S) = none)
    (hresponse : (net'.response S).received = (net.response S).received) :
    Delivered (es ++ [e]) net' S := by
  have hsame : readsOf S (es ++ [e]) = readsOf S es := by simp [readsOf_concat, he]
  exact ⟨by rw [hsame, hresponse]; exact h.received, hsame ▸ h.line⟩

theorem Delivered.step (h : Delivered es net S) (hnet : NetStep c v net e net') :
    Delivered (es ++ [e]) net' S := by
  cases hnet with
  | @client a ha =>
      refine h.other ?_ rfl
      cases a with
      | complete T op ec received => exact absurd ha nofun
      | _ => rfl
  | @sendResponse j portion T x _ _ _ _ _ =>
      refine h.other rfl ?_
      by_cases hS : S = T
      · simp [hS]
      · simp [hS]
  | @readResponse T received ec hread =>
      by_cases hT : T = S
      · subst hT
        have hconcat : readsOf T (es ++ [.readResponse T received ec]) =
            readsOf T es ++ [(ec, received)] := by
          simp [readsOf_concat, Event.left, AsyncTcpClient.Action.readOf]
        refine ⟨?_, ?_⟩
        · rw [hconcat]
          simp [Pipe.take_received hread.1, h.received]
        · rw [hconcat]
          intro r hr
          rcases List.mem_append.mp hr with hr | hr
          · exact h.line r hr
          · obtain rfl := List.mem_singleton.mp hr
            exact hread.2.1
      · refine h.other ?_ ?_
        · simp [Event.left, AsyncTcpClient.Action.readOf, hT]
        · simp [Ne.symm hT]
  | _ => exact h.other rfl rfl

theorem delivered (he : (network thread_pool_size).exec (network thread_pool_size).init es = some s)
    (S : SessionId) : Delivered es s.medium S := by
  refine TransitionSystem.exec_history (P := fun es s => Delivered es s.medium S) ?_ ?_ he
  · exact ⟨rfl, fun _ h => absurd h List.not_mem_nil⟩
  · intro es s e s' _ hi hs
    exact hi.step (network_inv hs).1

/-! ### From end to end -/

/-- The `emulateLongComputationOp` calls of a run, in the order of their sessions. -/
def calls (es : List Event) : List (UInt32 × UInt32) :=
  (es.filterMap Event.left).filterMap AsyncTcpClient.Action.construct

/-- The `j`-th service is that of the session. -/
def ServedBy (s : JointState ClientState ServerState Net) (S : SessionId) (j : Nat)
    (data : Service) : Prop :=
  s.medium.accepted[j]? = some S ∧ s.right.services[j]?.map (·.service.data) = some data

/-- What the two sides have come to. -/
structure Sound (es : List Event) (s : JointState ClientState ServerState Net) : Prop where
  /-- No session is served twice. -/
  once : s.medium.accepted.Nodup
  /-- A service responds only to the whole request of its own session. -/
  services : ∀ S j data, ServedBy s S j data → data.m_response ≠ [] →
    ∃ duration_sec request_id, (calls es)[S]? = some (duration_sec, request_id) ∧
      data.m_request = computationRequest duration_sec
  /-- A callback that reports success is given the line of a service that has read the request
  of its own call. -/
  callbacks : ∀ S, ∀ c ∈ (s.left.session S).callbacks, c.ec.value = 0 →
    c.response = bytes "Response" ∧
      ∃ j data duration_sec, ServedBy s S j data ∧
        (calls es)[S]? = some (duration_sec, c.request_id) ∧
        data.m_request = computationRequest duration_sec

theorem Linked.lt_next (h : Linked c net) (hr : AsyncTcpClient.client.Reachable c)
    (hS : S ∈ net.accepted ++ net.backlog) : S < c.next := by
  by_contra hge
  have habsent := (AsyncTcpClient.reachable_phase hr).2 S (Nat.le_of_not_lt hge)
  exact (h.connected S hS).1 (habsent.2.1 .connect)

/-- A run of the whole, seen by the client. -/
theorem client_history
    (he : (network thread_pool_size).exec (network thread_pool_size).init es = some s) :
    AsyncTcpClient.History (es.filterMap Event.left) s.left :=
  AsyncTcpClient.history (Joint.exec_left he)

/-- A service that has responded has read the request of its session. -/
theorem request_of_responded
    (he : (network thread_pool_size).exec (network thread_pool_size).init es = some s)
    {data : Service} (hserved : ServedBy s S j data) (hresponse : data.m_response ≠ []) :
    ∃ duration_sec, (calls es)[S]? = some (duration_sec, (s.left.session S).m_id) ∧
      data.m_request = computationRequest duration_sec := by
  have hr := TransitionSystem.reachable_of_exec he
  have hlinked := reachable_linked hr
  obtain ⟨hS, hmap⟩ := hserved
  obtain ⟨x, hx, rfl⟩ := Option.map_eq_some_iff.mp hmap
  have hserves := (reachable_attended hr).served j S x hS hx
  have hhistory := client_history he
  have hlt := hlinked.lt_next (Joint.reachable_sides hr).1
    (List.mem_append_left _ (List.mem_of_getElem? hS))
  rw [hhistory.next] at hlt
  obtain ⟨⟨duration_sec, request_id⟩, hcall⟩ : ∃ call, (calls es)[S]? = some call :=
    ⟨_, List.getElem?_eq_getElem hlt⟩
  obtain ⟨hrequest, hid⟩ := hhistory.call S duration_sec request_id hcall
  refine ⟨duration_sec, hid ▸ hcall, ?_⟩
  · have hline := (hserves.response.resolve_left hresponse).2
    rw [hserves.request] at hline ⊢
    refine (isLine_request duration_sec).eq_of_mem ?_ hline
    rw [← hrequest]
    exact (Pipe.received_isPrefix _).trans (hlinked.sends S).isPrefix

/-- A session that goes on from its read has received a line, and nothing else. -/
theorem received_of_read
    (he : (network thread_pool_size).exec (network thread_pool_size).init es = some s)
    (hpc : ((s.left.session S).pc .read).completing = true ∨
      ((s.left.session S).pc .read).left = true)
    (hgoes : ¬ (s.left.session S).Stopped) :
    ∃ received, (s.left.session S).m_response = firstLine received ∧
      received = (s.medium.response S).received ∧ LF ∈ received := by
  obtain ⟨ec, received, hreads, hline, hfailed⟩ := ((client_history he).own S).read.of_completing hpc
  have hec : ec.value = 0 := by
    by_contra hne
    exact hgoes (hfailed hne)
  -- the one read of the session has brought all that was delivered
  have hdelivered := delivered he S
  have hreads' : readsOf S es = [(ec, received)] := hreads
  refine ⟨received, by rw [hline, if_pos hec], ?_, ?_⟩
  · have hall := hdelivered.received
    rw [hreads'] at hall
    simpa using hall
  · exact hdelivered.line (ec, received) (by simp [hreads']) hec

/-- What was read of the responses comes from the service of the session. -/
theorem service_of_response (hr : (network thread_pool_size).Reachable s)
    (hread : (s.medium.response S).received ≠ []) :
    ∃ j data, ServedBy s S j data ∧ (s.medium.response S).received <+: data.m_response := by
  have hattended := reachable_attended hr
  have hprefix := (s.medium.response S).received_isPrefix
  by_cases hnone : ∀ j : Nat, s.medium.accepted[j]? = some S → s.right.services[j]? = none
  · have hnil := (hattended.untouched S hnone).2
    exact absurd (List.prefix_nil.mp (hnil ▸ hprefix)) hread
  · simp only [not_forall] at hnone
    obtain ⟨j, hS, hne⟩ := hnone
    obtain ⟨x, hx⟩ := Option.ne_none_iff_exists'.mp hne
    exact ⟨j, x.service.data, ⟨hS, by simp [hx]⟩, hprefix.trans (hattended.served j S x hS hx).sent⟩

/-- A callback that reports success is given the line of the service that has read the request of
its own call. -/
theorem service_of_success
    (he : (network thread_pool_size).exec (network thread_pool_size).init es = some s)
    {k : CallbackArgs} (hk : k ∈ (s.left.session S).callbacks) (hok : k.ec.value = 0) :
    k.response = bytes "Response" ∧
      ∃ j data duration_sec, ServedBy s S j data ∧
        (calls es)[S]? = some (duration_sec, k.request_id) ∧
        data.m_request = computationRequest duration_sec := by
  have hr := TransitionSystem.reachable_of_exec he
  have hown := (client_history he).own S
  obtain ⟨hid, hresponse⟩ := hown.callbacks k hk
  have hec : k.ec = (s.left.session S).reported :=
    (AsyncTcpClient.reachable_report (Joint.reachable_sides hr).1 S).2 k hk
  have hgoes : ¬ (s.left.session S).Stopped := fun h => h.reported (hec ▸ hok)
  have hleft := (hown.reported (List.ne_nil_of_mem hk)).resolve_left hgoes
  obtain ⟨received, hline, hreceived, hLF⟩ := received_of_read he (.inr hleft) hgoes
  obtain ⟨j, data, hserved, hprefix⟩ := service_of_response hr
    (hreceived ▸ List.ne_nil_of_mem hLF)
  rw [← hreceived] at hprefix
  have hresponded : data.m_response ≠ [] := by
    intro hnil
    rw [hnil] at hprefix
    exact List.ne_nil_of_mem hLF (List.prefix_nil.mp hprefix)
  obtain ⟨duration_sec, hcall, hrequest⟩ := request_of_responded he hserved hresponded
  refine ⟨?_, j, data, duration_sec, hserved, hid ▸ hcall, hrequest⟩
  obtain ⟨hS, hmap⟩ := hserved
  obtain ⟨x, hx, rfl⟩ := Option.map_eq_some_iff.mp hmap
  have htext := (((reachable_attended hr).served j S x hS hx).response.resolve_left hresponded).1
  rw [htext] at hprefix
  rw [hresponse, hline, isLine_response.eq_of_mem hprefix hLF]
  decide

/-- **Successful exchanges are genuine**, in every run of the two programs and the network. -/
theorem exchanges_sound
    (he : (network thread_pool_size).exec (network thread_pool_size).init es = some s) :
    Sound es s := by
  have hlinked := reachable_linked (TransitionSystem.reachable_of_exec he)
  refine ⟨(List.nodup_append.mp hlinked.nodup).1, ?_, fun S k hk hok => service_of_success he hk hok⟩
  intro S j data hserved hresponse
  obtain ⟨duration_sec, hcall, hrequest⟩ := request_of_responded he hserved hresponse
  exact ⟨duration_sec, _, hcall, hrequest⟩

/-- One call, served while the acceptor waits for the next connection. The request and the
response go out in two portions each, and both are read before their write completes. -/
def oneExchange : List Event := List.flatten [
  [.server .server, .client (.emulateLongComputationOp true 10 1)],
  List.replicate 5 (.client (.caller 0 true)), [.connect 0 .success],
  List.replicate 5 (.client (.handler 0 .connect)), [.accept 0 .success],
  List.replicate 3 (.server (.onAccept 0)),
  [.sendRequest 0 (bytes "EMULATE_LONG_"), .sendRequest 0 (bytes "CALC_OP 10\n"),
    .readRequest 0 0 (bytes "EMULATE_LONG_CALC_OP 10\n") .success, .requestSent 0 .success],
  List.replicate 5 (.client (.handler 0 .write)),
  [.server (.service 0 (.run 0 ())), .sendResponse 0 (bytes "Resp"),
    .sendResponse 0 (bytes "onse\n"), .readResponse 0 (bytes "Response\n") .success,
    .responseSent 0 0 .success],
  List.replicate 2 (.server (.service 0 (.run 0 ()))),
  List.replicate 8 (.client (.handler 0 .read))]

theorem exchanges_sound_oneExchange :
    ∃ s, (network 1).exec (network 1).init oneExchange = some s ∧
      (s.left.session 0).callbacks = [⟨1, bytes "Response", .success⟩] ∧
      Sound oneExchange s := by
  have hrun : ((network 1).exec (network 1).init oneExchange).map
      (fun s => (s.left.session 0).callbacks) =
      some [⟨1, bytes "Response", .success⟩] := by decide
  obtain ⟨s, hs, hcallbacks⟩ := Option.map_eq_some_iff.mp hrun
  exact ⟨s, hs, hcallbacks, exchanges_sound hs⟩

end AsioStudy.AsyncTcp
