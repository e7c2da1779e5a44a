import AsioStudy.AsyncTcpClient.Cancellation

/-!
# AsioStudy.AsyncTcpClient.Responses

Requests are not mixed up. Sessions, threads and io threads share the client, and request ids
may be re-used; still every callback is given the id its own call was made with, and on
success the first line of what its own read has received (`responses_own`).

The proof follows a session along the run: `Session.ReadBy` relates it to the reads of the
session that have completed so far.
-/

namespace AsioStudy.AsyncTcpClient

variable {s s' : State} {a : Action} {S T : SessionId} {op : Op} {n : Nat} {x y : Session}
  {as : List Action} {reads : List (ErrorCode × Bytes)}

/-- The duration and the id with which a session is constructed. -/
def Action.construct : Action → Option (UInt32 × UInt32)
  | .emulateLongComputationOp true duration_sec request_id => some (duration_sec, request_id)
  | _ => none

/-- The completion of the read of session `S`. -/
def Action.readOf (S : SessionId) : Action → Option (ErrorCode × Bytes)
  | .complete T .read ec received => if T = S then some (ec, received) else none
  | _ => none

/-- What `std::getline` reads first from a stream with these bytes. -/
def firstLine (received : Bytes) : Bytes := received.takeWhile (· != LF)

/-- The session's error code or flag keeps it from reporting success. -/
def Session.Stopped (x : Session) : Prop := x.m_ec.value ≠ 0 ∨ x.m_was_cancelled = true

/-- How far the read of the session has come, `reads` being its completions. -/
inductive Session.ReadBy (x : Session) (reads : List (ErrorCode × Bytes)) : Prop
  | before : x.pc .read = .idle ∨ x.pc .read = .pending → reads = [] →
      x.m_response_buf = [] → x.m_response = [] → ReadBy x reads
  | entered {ec received} : x.pc .read = .entry ec → reads = [(ec, received)] →
      x.m_response_buf = received → x.m_response = [] → ReadBy x reads
  | after {ec received} : (x.pc .read).completing = true ∨ (x.pc .read).left = true →
      reads = [(ec, received)] →
      x.m_response = (if ec.value = 0 then firstLine received else []) →
      (ec.value ≠ 0 → x.Stopped) → ReadBy x reads

/-- What the session reports is its own. -/
structure Session.Own (x : Session) (reads : List (ErrorCode × Bytes)) : Prop where
  read : x.ReadBy reads
  /-- The handlers before that of the read complete the request only if it is stopped. -/
  completing : ∀ op, op ≠ .read → (x.pc op).completing = true → x.Stopped
  reported : x.callbacks ≠ [] → x.Stopped ∨ (x.pc .read).left = true
  callbacks : ∀ c ∈ x.callbacks, c.request_id = x.m_id ∧ c.response = x.m_response

theorem getline_firstLine (received : Bytes) :
    ((IStream.on received).getline [] LF).1 = firstLine received := by
  simp only [IStream.getline, IStream.on_good, IStream.on_rest, if_true]
  split <;> rfl

/-! ### One session -/

theorem Session.Stopped.reported (h : x.Stopped) : x.reported.value ≠ 0 := by
  unfold Session.reported
  split
  · simp
  · next hnot =>
    rcases h with hec | hflag
    · exact hec
    · exact fun hec => hnot ⟨hec, hflag⟩

theorem Session.Stopped.of_enter (h : x.Stopped) (op : Op) (ec : ErrorCode) :
    (x.enter op ec).Stopped := by
  rcases h with hec | hflag
  · unfold Session.enter
    split
    · next hne => exact .inl hne
    · cases op <;> exact .inl hec
  · exact .inr (by simpa using hflag)

/-- A handler that meets an error, or the one of the read, completes the request. -/
theorem Session.enterPc_completing {ec : ErrorCode} (h : (Session.enterPc op ec).completing = true)
    (hop : op ≠ .read) : ec.value ≠ 0 := by
  unfold Session.enterPc at h
  split at h
  · next hor => exact hor.resolve_right hop
  · exact absurd h (by decide)

/-- The other handlers do not touch what the read has left. -/
theorem Session.ReadBy.congr (h : x.ReadBy reads) (hpc : y.pc .read = x.pc .read)
    (hbuf : y.m_response_buf = x.m_response_buf) (hresponse : y.m_response = x.m_response)
    (hstopped : x.Stopped → y.Stopped) : y.ReadBy reads := by
  cases h with
  | before hpc' hreads hbuf' hresp => exact .before (hpc ▸ hpc') hreads (hbuf ▸ hbuf') (hresponse ▸ hresp)
  | entered hpc' hreads hbuf' hresp =>
      exact .entered (hpc ▸ hpc') hreads (hbuf ▸ hbuf') (hresponse ▸ hresp)
  | after hpc' hreads hresp hec =>
      exact .after (hpc ▸ hpc') hreads (hresponse ▸ hresp) fun hne => hstopped (hec hne)

/-- The handler of the read has been invoked, so the read has completed. -/
theorem Session.ReadBy.of_completing (h : x.ReadBy reads)
    (hpc : (x.pc .read).completing = true ∨ (x.pc .read).left = true) :
    ∃ ec received, reads = [(ec, received)] ∧
      x.m_response = (if ec.value = 0 then firstLine received else []) ∧
      (ec.value ≠ 0 → x.Stopped) := by
  cases h with
  | before hidle _ _ _ =>
      rcases hidle with hidle | hidle <;> simp [hidle, HandlerPc.completing, HandlerPc.left] at hpc
  | entered hentry _ _ _ => simp [hentry, HandlerPc.completing, HandlerPc.left] at hpc
  | after _ hreads hresponse hec => exact ⟨_, _, hreads, hresponse, hec⟩

/-- The read has not completed. -/
theorem Session.ReadBy.of_not_completed (h : x.ReadBy reads)
    (hpc : x.pc .read = .idle ∨ x.pc .read = .pending) :
    reads = [] ∧ x.m_response_buf = [] ∧ x.m_response = [] := by
  cases h with
  | before _ hreads hbuf hresponse => exact ⟨hreads, hbuf, hresponse⟩
  | entered hentry _ _ _ => rcases hpc with hpc | hpc <;> simp [hpc] at hentry
  | after hafter _ _ _ =>
      rcases hpc with hpc | hpc <;> simp [hpc, HandlerPc.completing, HandlerPc.left] at hafter

/-- Moving another handler than that of the read. -/
theorem Session.Own.setPc_other (h : x.Own reads) (hop : op ≠ .read) {pc : HandlerPc}
    (hpc : pc.completing = true → x.Stopped) : (x.setPc op pc).Own reads := by
  have hread : (x.setPc op pc).pc .read = x.pc .read := by simp [hop.symm]
  refine ⟨h.read.congr hread rfl rfl id, ?_, ?_, h.callbacks⟩
  · intro o ho hcompl
    by_cases hoo : o = op
    · exact hpc (by simpa [hoo] using hcompl)
    · exact h.completing o ho (by simpa [hoo] using hcompl)
  · rw [hread]
    exact h.reported

/-- Moving the handler of the read once the read has been taken in. -/
theorem Session.Own.setPc_read (h : x.Own reads) {pc : HandlerPc}
    (hread : (x.pc .read).completing = true ∨ (x.pc .read).left = true)
    (hpc : pc.completing = true ∨ pc.left = true)
    (hleft : (x.pc .read).left = true → pc.left = true) : (x.setPc .read pc).Own reads := by
  obtain ⟨ec, received, hreads, hresponse, hec⟩ := h.read.of_completing hread
  refine ⟨.after (by simpa using hpc) hreads hresponse hec, ?_, ?_, h.callbacks⟩
  · intro o ho hcompl
    exact h.completing o ho (by simpa [ho] using hcompl)
  · intro hne
    exact (h.reported hne).imp_right fun hl => by simpa using hleft hl

theorem Session.Own.invokeCallback (h : x.Own reads) (ec : ErrorCode)
    (hstopped : x.Stopped ∨ (x.pc .read).left = true) : (x.invokeCallback ec).Own reads := by
  refine ⟨h.read.congr rfl rfl rfl id, h.completing, fun _ => hstopped, ?_⟩
  intro c hc
  rcases List.mem_append.mp hc with hc | hc
  · exact h.callbacks c hc
  · obtain rfl := List.mem_singleton.mp hc
    exact ⟨rfl, rfl⟩

theorem CallMove.own (h : CallMove x y) (hx : x.Own reads) : y.Own reads := by
  cases h with
  | asyncConnect _ =>
      have hset : (x.setPc .connect .pending).Own reads :=
        hx.setPc_other (by decide) fun h => absurd h (by decide)
      exact ⟨hset.read.congr rfl rfl rfl id, hset.completing, hset.reported, hset.callbacks⟩
  | _ => exact ⟨hx.read.congr rfl rfl rfl id, hx.completing, hx.reported, hx.callbacks⟩

/-- The handler of the read takes in what was received, and no other. -/
theorem HandlerMove.own_read (h : HandlerMove x .read y) (hp : ∃ p, x.InPhase p)
    (hx : x.Own reads) : y.Own reads := by
  have hset : ∀ {pc pc' : HandlerPc}, x.pc .read = pc → pc.completing = true →
      pc'.completing = true ∨ pc'.left = true → (x.setPc .read pc').Own reads := by
    intro pc pc' hpc hcompl hpc'
    refine hx.setPc_read (.inl (hpc ▸ hcompl)) hpc' ?_
    intro hleft
    rw [hpc] at hleft
    cases pc <;> simp [HandlerPc.completing, HandlerPc.left] at hcompl hleft
  have hguarded : (x.pc .read = .lockCancel ∨ x.pc .read = .testCancelled) → y.Own reads := by
    intro hpc
    cases hx.read <;> rcases hpc with hpc | hpc <;>
      simp_all [HandlerPc.completing, HandlerPc.left]
  cases h with
  | @enter ec hpc =>
      obtain ⟨p, hp⟩ := hp
      obtain ⟨hcallbacks, -⟩ := hp.no_report hpc rfl
      cases hx.read with
      | @entered ec' received hentry hreads hbuf hresponse =>
          obtain rfl : ec' = ec := by simpa [hpc, eq_comm] using hentry
          refine ⟨.after (.inl ?_) hreads ?_ ?_, ?_, ?_, ?_⟩
          · simp [Session.enterPc, HandlerPc.completing]
          · unfold Session.enter
            split
            · next hne => simpa [hne, Session.setPc] using hresponse
            · next hok =>
              simp only [not_not] at hok
              simp [hok, hbuf, hresponse, getline_firstLine, Session.setPc]
          · intro hne
            exact .inl (by simp [Session.enter, hne])
          · intro o ho hcompl
            exact (hx.completing o ho (by simpa [ho] using hcompl)).of_enter .read ec'
          · intro hne
            simp [hcallbacks] at hne
          · intro c hc
            simp [hcallbacks] at hc
      | before hidle _ _ _ => simp [hpc] at hidle
      | after hafter _ _ _ => simp [hpc, HandlerPc.completing, HandlerPc.left] at hafter
  | lockCancel hpc => exact hguarded (.inl hpc)
  | cancelled hpc _ => exact hguarded (.inr hpc)
  | notCancelled hpc _ => exact hguarded (.inr hpc)
  | startNext _ hn => exact absurd hn (by simp [Op.next])
  | shutdown hpc => exact hset hpc rfl (.inl rfl)
  | lockActive hpc => exact hset hpc rfl (.inl rfl)
  | eraseEntry hpc => exact hset hpc rfl (.inl rfl)
  | unlockActive hpc => exact hset hpc rfl (.inl rfl)
  | report hpc => exact hset hpc rfl (.inl rfl)
  | @callback ec hpc =>
      have hret : (x.setPc .read .ret).Own reads := hset hpc rfl (.inr rfl)
      exact hret.invokeCallback ec (.inr (by simp [HandlerPc.left]))
  | ret hpc => exact hx.setPc_read (.inr (by rw [hpc]; rfl)) (.inr rfl) fun _ => rfl

/-- The other handlers leave the read alone, but for the one that starts it. -/
theorem HandlerMove.own_other (h : HandlerMove x op y) (hop : op ≠ .read)
    (hp : ∃ p, x.InPhase p) (hx : x.Own reads) : y.Own reads := by
  have hset : ∀ {pc pc' : HandlerPc}, x.pc op = pc → pc.completing = true →
      (x.setPc op pc').Own reads := by
    intro pc pc' hpc hcompl
    exact hx.setPc_other hop fun _ => hx.completing op hop (hpc ▸ hcompl)
  cases h with
  | @enter ec hpc =>
      have hresponse : (x.enter op ec).m_response_buf = x.m_response_buf ∧
          (x.enter op ec).m_response = x.m_response := by
        unfold Session.enter
        split
        · exact ⟨rfl, rfl⟩
        · cases op with
          | read => exact absurd rfl hop
          | _ => exact ⟨rfl, rfl⟩
      have hec : ec.value ≠ 0 → (x.enter op ec).Stopped := by
        intro hne
        exact .inl (by simp [Session.enter, hne])
      refine ⟨hx.read.congr (by simp [hop.symm]) hresponse.1 hresponse.2 (·.of_enter op ec),
        ?_, ?_, ?_⟩
      · intro o ho hcompl
        by_cases hoo : o = op
        · exact hec (Session.enterPc_completing (by simpa [hoo] using hcompl) hop)
        · exact (hx.completing o ho (by simpa [hoo] using hcompl)).of_enter op ec
      · intro hne
        refine (hx.reported (by simpa using hne)).imp (·.of_enter op ec) ?_
        intro hleft
        simpa [hop.symm] using hleft
      · intro c hc
        rw [hresponse.2]
        simpa using hx.callbacks c (by simpa using hc)
  | lockCancel hpc => exact hx.setPc_other hop (absurd · Bool.false_ne_true)
  | cancelled _ hflag => exact hx.setPc_other hop fun _ => .inr hflag
  | notCancelled _ _ => exact hx.setPc_other hop (absurd · Bool.false_ne_true)
  | @startNext op' hpc hn =>
      have hidle := Session.idle_of_next hp hpc rfl hn
      have hstarted : (x.setPc op' .pending).Own reads := by
        by_cases hread : op' = .read
        · subst hread
          obtain ⟨hreads, hbuf, hresponse⟩ := hx.read.of_not_completed (.inl hidle)
          refine ⟨.before (.inr (by simp)) hreads hbuf hresponse, ?_, ?_, hx.callbacks⟩
          · intro o ho hcompl
            exact hx.completing o ho (by simpa [ho] using hcompl)
          · intro hne
            refine (hx.reported hne).imp_right fun hl => ?_
            simp [hidle, HandlerPc.left] at hl
        · exact hx.setPc_other hread (absurd · Bool.false_ne_true)
      exact hstarted.setPc_other hop (absurd · Bool.false_ne_true)
  | shutdown hpc => exact hset hpc rfl
  | lockActive hpc => exact hset hpc rfl
  | eraseEntry hpc => exact hset hpc rfl
  | unlockActive hpc => exact hset hpc rfl
  | report hpc => exact hset hpc rfl
  | @callback ec hpc =>
      have hret : (x.setPc op .ret).Own reads := hset hpc rfl
      exact hret.invokeCallback ec (.inl (hx.completing op hop (by rw [hpc]; rfl)))
  | ret hpc => exact hx.setPc_other hop (absurd · Bool.false_ne_true)

/-! ### Whole runs -/

theorem SessionStep.own (h : SessionStep s T a y) (hp : ∃ p, (s.session T).InPhase p)
    (hT : (s.session T).Own reads) (hnew : T = s.next → reads = []) :
    y.Own (reads ++ (a.readOf T).toList) := by
  cases h with
  | construct hn =>
      rw [hnew hn]
      exact ⟨.before (.inl rfl) rfl rfl rfl, fun _ _ h => absurd h Bool.false_ne_true,
        fun h => absurd rfl h, fun _ h => absurd h List.not_mem_nil⟩
  | caller h => simpa [Action.readOf] using h.own hT
  | @complete op ec received hpc =>
      by_cases hop : op = .read
      · subst hop
        obtain ⟨rfl, hbuf, hresponse⟩ := hT.read.of_not_completed (.inr hpc)
        have hreads : [] ++ ((Action.complete T .read ec received).readOf T).toList =
            [(ec, received)] := by
          simp [Action.readOf]
        rw [hreads]
        refine ⟨.entered (by simp) rfl ?_ hresponse, ?_, ?_, hT.callbacks⟩
        · simp [Session.receive, Session.setPc, hbuf]
        · intro o ho hcompl
          exact hT.completing o ho (by simpa [ho] using hcompl)
        · intro hne
          refine (hT.reported hne).imp_right fun hl => ?_
          simp [hpc, HandlerPc.left] at hl
      · have hsame : (s.session T).receive op received = s.session T := by
          cases op with
          | read => exact absurd rfl hop
          | _ => rfl
        have hreads : (Action.complete T op ec received).readOf T = none := by
          cases op with
          | read => exact absurd rfl hop
          | _ => rfl
        rw [hsame, hreads, Option.toList_none, List.append_nil]
        exact hT.setPc_other hop (absurd · Bool.false_ne_true)
  | @handler op y h =>
      have hreads : reads ++ ((Action.handler T op).readOf T).toList = reads := by
        simp [Action.readOf]
      rw [hreads]
      by_cases hop : op = .read
      · subst hop
        exact h.own_read hp hT
      · exact h.own_other hop hp hT
  | setCancelled _ =>
      simp only [Action.readOf, Option.toList_none, List.append_nil]
      exact ⟨hT.read.congr rfl rfl rfl fun _ => .inr rfl, fun _ _ _ => .inr rfl,
        fun _ => .inl (.inr rfl), hT.callbacks⟩

/-- The completion of its read concerns the session. -/
theorem Step.own (h : Step s a s') (hp : ∃ p, (s.session T).InPhase p)
    (hT : (s.session T).Own reads) (hnew : T = s.next → reads = []) :
    (s'.session T).Own (reads ++ (a.readOf T).toList) := by
  rcases h.session T with hsame | hs
  · have hnone : a.readOf T = none := by
      cases h with
      | @complete S op ec received hpc =>
          by_cases hS : S = T
          · subst hS
            -- a completion moves its handler
            have hmoved := congrFun (congrArg Session.pc hsame) op
            simp [hpc] at hmoved
          · cases op <;> simp [Action.readOf, hS]
      | _ => rfl
    rw [hsame, hnone, Option.toList_none, List.append_nil]
    exact hT
  · exact hs.own hp hT hnew

/-- A step constructs the session or leaves its text alone. -/
theorem SessionStep.m_request (h : SessionStep s T a y) :
    (T = s.next ∧ ∃ d id, y = .new (computationRequest d) id .openSocket) ∨
      y.m_request = (s.session T).m_request := by
  cases h with
  | construct hn => exact .inl ⟨hn, _, _, rfl⟩
  | caller h => exact .inr (by cases h <;> rfl)
  | @complete op ec received _ => exact .inr (by cases op <;> rfl)
  | @handler op y h =>
      refine .inr ?_
      cases h with
      | @enter ec _ =>
          unfold Session.enter
          split
          · rfl
          · cases op <;> rfl
      | _ => rfl
  | setCancelled _ => exact .inr rfl

/-- The text and the id of a session never change once it is constructed. -/
theorem Step.m_request (h : Step s a s') (hT : T ≠ s.next) :
    (s'.session T).m_request = (s.session T).m_request ∧
      (s'.session T).m_id = (s.session T).m_id := by
  refine ⟨?_, h.m_id hT⟩
  rcases h.session T with hsame | hs
  · rw [hsame]
  · exact hs.m_request.resolve_left fun hnew => hT hnew.1

theorem Action.construct_eq_some {d id : UInt32} (h : a.construct = some (d, id)) :
    a = .emulateLongComputationOp true d id := by
  cases a with
  | emulateLongComputationOp parsed d' id' =>
      cases parsed with
      | true =>
          obtain ⟨rfl, rfl⟩ := Prod.mk.inj (Option.some.inj h)
          rfl
      | false => exact absurd h nofun
  | _ => exact absurd h nofun

/-- A step constructs the next session or none. -/
theorem Step.next_construct (h : Step s a s') :
    s'.next = s.next + a.construct.toList.length := by
  cases h with
  | caller h => cases h <;> rfl
  | handler h => cases h <;> rfl
  | canceller h => cases h <;> rfl
  | _ => rfl

/-- What a run tells about every session it has constructed. -/
structure History (as : List Action) (s : State) : Prop where
  next : s.next = (as.filterMap Action.construct).length
  call : ∀ S d id, (as.filterMap Action.construct)[S]? = some (d, id) →
    (s.session S).m_request = computationRequest d ∧ (s.session S).m_id = id
  own : ∀ S, (s.session S).Own (as.filterMap (Action.readOf S))

theorem history (he : client.exec client.init as = some s) : History as s := by
  refine TransitionSystem.exec_history (P := History) ?_ ?_ he
  · exact ⟨rfl, fun _ _ _ h => absurd h (by simp), fun _ => ⟨.before (.inl rfl) rfl rfl rfl,
      fun _ _ h => absurd h nofun, fun h => absurd rfl h, fun _ h => absurd h List.not_mem_nil⟩⟩
  · intro as s a s' hrun hi hs
    have hr := TransitionSystem.reachable_of_exec hrun
    obtain ⟨hphase, hfresh⟩ := reachable_phase hr
    have hst := step_inv hs
    have hnext := hst.next_construct
    refine ⟨?_, ?_, ?_⟩
    · rw [hnext, hi.next, List.filterMap_append, List.length_append]
      cases hc : a.construct <;> simp [hc]
    · intro S d id hS
      rw [List.filterMap_append, List.getElem?_append] at hS
      split at hS
      · next hlt =>
        have hne : S ≠ s.next := Nat.ne_of_lt (hi.next ▸ hlt)
        obtain ⟨hrequest, hid⟩ := hst.m_request hne
        rw [hrequest, hid]
        exact hi.call S d id hS
      · next hge =>
        -- the session that this step constructs
        cases hc : a.construct with
        | none => simp [hc] at hS
        | some call =>
            rw [List.filterMap_cons_some hc, List.filterMap_nil] at hS
            obtain ⟨hlt, hcall⟩ := List.getElem?_eq_some_iff.mp hS
            have hSn : S = s.next := by
              rw [List.length_singleton] at hlt
              rw [hi.next]
              exact Nat.le_antisymm (by omega) (Nat.le_of_not_lt hge)
            obtain rfl : call = (d, id) := by simpa using hcall
            obtain rfl := Action.construct_eq_some hc
            cases hst with
            | construct => simp [hSn, Session.new]
    · intro S
      have hown := hst.own (hphase S) (hi.own S) fun hS => by
        subst hS
        have hidle := (hfresh s.next (Nat.le_refl _)).2.1 .read
        exact ((hi.own s.next).read.of_not_completed (.inl hidle)).1
      rw [List.filterMap_append]
      cases hread : a.readOf S <;> simpa [hread] using hown

/-- **A callback is given the answer to its own request.** -/
structure OwnAnswer (as : List Action) (s : State) (S : SessionId) (c : CallbackArgs) : Prop where
  /-- The id is that of the call, and what is written is the text of its request. -/
  request : ∃ duration_sec,
    (as.filterMap Action.construct)[S]? = some (duration_sec, c.request_id) ∧
      (s.session S).m_request = computationRequest duration_sec
  /-- The response is the first line that the session's read has received. -/
  response : (∃ ec received, as.filterMap (Action.readOf S) = [(ec, received)] ∧ ec.value = 0 ∧
      c.response = firstLine received) ∨ c.response = [] ∧ c.ec.value ≠ 0

/-- **Requests are not mixed up.** In every run, however its threads interleave and whatever
ids are used, each callback answers its own request. -/
theorem responses_own (he : client.exec client.init as = some s) {c : CallbackArgs}
    (hc : c ∈ (s.session S).callbacks) : OwnAnswer as s S c := by
  have hi := history he
  have hr := TransitionSystem.reachable_of_exec he
  obtain ⟨hid, hresponse⟩ := (hi.own S).callbacks c hc
  have hec : c.ec = (s.session S).reported := (reachable_report hr S).2 c hc
  have hstopped : (s.session S).Stopped → c.ec.value ≠ 0 := fun h => hec ▸ h.reported
  refine ⟨?_, ?_⟩
  · -- a session that has called back has been constructed
    have hlt : S < s.next := by
      by_contra hge
      rw [((reachable_phase hr).2 S (Nat.le_of_not_lt hge)).2.2] at hc
      exact absurd hc List.not_mem_nil
    rw [hi.next] at hlt
    obtain ⟨hrequest, hm_id⟩ := hi.call S _ _ (List.getElem?_eq_getElem hlt)
    refine ⟨_, ?_, hrequest⟩
    rw [List.getElem?_eq_getElem hlt, hid, hm_id]
    rfl
  · have hreported := (hi.own S).reported (List.ne_nil_of_mem hc)
    rw [hresponse]
    cases (hi.own S).read with
    | before hpc _ _ hnil =>
        refine .inr ⟨hnil, hstopped (hreported.resolve_right ?_)⟩
        rcases hpc with hpc | hpc <;> simp [hpc, HandlerPc.left]
    | entered hpc _ _ hnil =>
        exact .inr ⟨hnil, hstopped (hreported.resolve_right (by simp [hpc, HandlerPc.left]))⟩
    | @after ec received _ hreads hline hfailed =>
        by_cases hok : ec.value = 0
        · exact .inl ⟨ec, received, hreads, hok, by rw [hline, if_pos hok]⟩
        · exact .inr ⟨by rw [hline, if_neg hok], hstopped (hfailed hok)⟩

/-- The exchange up to its callback. -/
def answeredRun : List Action :=
  exchangeRun ++ [.handler 0 .read, .handler 0 .read, .handler 0 .read, .handler 0 .read,
    .handler 0 .read, .handler 0 .read]

theorem responses_own_answered :
    ∃ s, client.exec client.init answeredRun = some s ∧
      OwnAnswer answeredRun s 0 ⟨1, [79, 75], .success⟩ := by
  have hrun : (client.exec client.init answeredRun).map (fun s => (s.session 0).callbacks) =
      some [⟨1, [79, 75], .success⟩] := by decide
  obtain ⟨s, hs, hcallbacks⟩ := Option.map_eq_some_iff.mp hrun
  exact ⟨s, hs, responses_own hs (by rw [hcallbacks]; exact List.mem_singleton.mpr rfl)⟩

end AsioStudy.AsyncTcpClient
