import AsioStudy.AsyncTcpClient.Registry

/-!
# AsioStudy.AsyncTcpClient.DistinctIds

`m_active_sessions` is keyed by the id the caller passes, and nothing checks that ids
differ: registering an id again replaces the entry, and completing a session erases
whatever is stored under its id. So a session in flight is sure to be found by its id `k`
only in runs whose calls do not register `k` while it is in flight (`RegistersFreshId`). In
these `reachable_owned` gives every session in flight with the id `k` its entry, whatever
happens to the other ids.
-/

namespace AsioStudy.AsyncTcpClient

variable {s s' : State} {a : Action} {S T : SessionId} {op : Op} {n : Nat} {x y : Session}
  {k : UInt32}

/-- **The condition.** A call registers a session with the id `k` only when no session in flight
has it. -/
def RegistersFreshId (k : UInt32) (s : State) : Action → Prop
  | .caller S _ => (s.session S).call = .insert → (s.session S).m_id = k →
      ∀ T < s.next, (s.session T).InFlight → (s.session T).m_id ≠ k
  | _ => True

/-- Every session in flight with the id `k` is the entry under it. -/
def Owned (k : UInt32) (s : State) : Prop :=
  ∀ T, (s.session T).InFlight → (s.session T).m_id = k → s.m_active_sessions (mapKey k) = some T

/-! ### How a flight begins -/

/-- A change of the handler of `op` alone, from a point before the erase step, does not
undo the erase step. -/
theorem Session.PastErase.setPc {x : Session} (h : x.PastErase) (op : Op) (pc : HandlerPc)
    (hpc : (x.pc op).pastErase = true → pc.pastErase = true) : (x.setPc op pc).PastErase := by
  rcases h with hcb | ⟨o, ho⟩
  · exact .inl hcb
  · refine .inr ⟨o, ?_⟩
    by_cases hop : o = op
    · subst hop
      simpa using hpc ho
    · simpa [hop] using ho

/-- A session that has passed the erase step has passed it for good. -/
theorem HandlerMove.pastErase (h : HandlerMove x op y) (hp : ∃ p, x.InPhase p)
    (hx : x.PastErase) : y.PastErase := by
  cases h with
  | @enter ec hpc =>
      refine (hx.setPc op (Session.enterPc op ec) (by simp [hpc, HandlerPc.pastErase])).imp ?_ ?_
      · simp
      · intro h
        obtain ⟨o, ho⟩ := h
        exact ⟨o, by simpa using ho⟩
  | @startNext op' hpc hn =>
      have hidle := Session.idle_of_next hp hpc rfl hn
      have hne : op ≠ op' := (Op.ne_of_next hn).symm
      have hpending : (x.setPc op' .pending).PastErase :=
        hx.setPc op' .pending (by simp [hidle, HandlerPc.pastErase])
      exact hpending.setPc op .ret (by simp [hne, hpc, HandlerPc.pastErase])
  | callback hpc => exact .inl (by simp)
  | unlockActive _ => exact hx.setPc op _ fun _ => rfl
  | report _ => exact hx.setPc op _ fun _ => rfl
  | _ => exact hx.setPc op _ (by simp [*, HandlerPc.pastErase])

theorem HandlerMove.call (h : HandlerMove x op y) : y.call = x.call := by
  cases h <;> simp

/-- **A flight begins with the registration.** -/
theorem SessionStep.inFlight_inv (h : SessionStep s T a y)
    (hp : ∃ p, (s.session T).InPhase p) (hT : y.InFlight) :
    (s.session T).InFlight ∨
    ∃ opened, a = .caller T opened ∧ (s.session T).call = .insert := by
  cases h with
  | construct _ => exact absurd hT.1 nofun
  | @caller opened _ h =>
      cases h with
      | insert hc => exact .inr ⟨opened, rfl, hc⟩
      | unlockActive hc => exact .inl ⟨by rw [hc]; rfl, hT.2⟩
      | asyncConnect hc =>
          -- no operation has been started before
          obtain ⟨p, hp⟩ := hp
          obtain rfl := hp.eq_calling (by rw [hc]; rfl)
          exact .inl ⟨by rw [hc]; rfl, Session.not_pastErase_of_untouched hp.2⟩
      | _ => exact absurd hT.1 nofun
  | @complete op ec received hpc =>
      refine .inl ⟨by simpa using hT.1, ?_⟩
      intro hpast
      have hreceive : ((s.session T).receive op received).PastErase := by
        simpa [Session.PastErase] using hpast
      exact hT.2 (hreceive.setPc op (.entry ec) (by simp [hpc, HandlerPc.pastErase]))
  | handler h => exact .inl ⟨h.call ▸ hT.1, fun hpast => hT.2 (h.pastErase hp hpast)⟩
  | setCancelled _ => exact .inl hT

theorem Step.inFlight_inv (h : Step s a s') (hp : ∀ T, ∃ p, (s.session T).InPhase p)
    (hT : (s'.session T).InFlight) :
    (s.session T).InFlight ∨
    ∃ opened, a = .caller T opened ∧ (s.session T).call = .insert := by
  rcases h.session T with hsame | hs
  · exact .inl (hsame ▸ hT)
  · exact hs.inFlight_inv (hp T) hT

/-! ### The entries -/

/-- The erase step of a session ends its flight. -/
theorem HandlerStep.not_inFlight_of_erase (h : HandlerStep s S op s')
    (hpc : (s.session S).pc op = .eraseEntry) : ¬ (s'.session S).InFlight := by
  intro hfl
  refine hfl.2 (.inr ⟨op, ?_⟩)
  cases h <;> simp_all [HandlerPc.pastErase]

/-- At the erase step a session is still in flight. -/
theorem Session.InPhase.inFlight {x : Session} {p : Phase} (hp : x.InPhase p)
    (hpc : x.pc op = .eraseEntry) : x.InFlight := by
  obtain rfl := hp.eq_handling hpc rfl
  refine ⟨by rw [hp.1]; rfl, ?_⟩
  intro h
  obtain hcb | ⟨o, ho⟩ := h
  · exact hcb hp.2.1
  · have hw : (x.pc o).working = true := by
      cases hpc : x.pc o <;> simp [hpc, HandlerPc.pastErase] at ho <;> rfl
    obtain rfl := Phase.handling.inj (hp.eq_handling rfl hw)
    rw [hpc] at ho
    exact absurd ho (by decide)

/-- Registering a fresh id and completing a session keep the entry of every session in
flight. -/
theorem Step.owned (h : Step s a s') (hp : ∀ T, ∃ p, (s.session T).InPhase p)
    (hfresh : ∀ T ≥ s.next, (s.session T).InPhase .absent) (hok : RegistersFreshId k s a)
    (hi : Owned k s) : Owned k s' := by
  intro T hT hk
  rcases h.inFlight_inv hp hT with hold | ⟨opened, rfl, hc⟩
  · have hlt := hold.lt_next hfresh
    rw [h.m_id (Nat.ne_of_lt hlt)] at hk
    have hentry := hi T hold hk
    rcases h.map_cases with hmap | ⟨S, opened, rfl, hc, rfl⟩ | ⟨S, op, rfl, hpc, rfl⟩
    · rw [hmap, hentry]
    · have hid : mapKey k ≠ mapKey (s.session S).m_id :=
        fun he => hok hc (mapKey_injective he).symm T hlt hold hk
      simpa [hid] using hentry
    · have hTS : T ≠ S := by
        intro heq
        subst heq
        cases h with
        | handler h => exact h.not_inFlight_of_erase hpc hT
      -- two sessions with the id would share the entry
      have hid : mapKey k ≠ mapKey (s.session S).m_id := by
        intro he
        obtain ⟨p, hp⟩ := hp S
        have hentry' := hi S (hp.inFlight hpc) (mapKey_injective he).symm
        rw [hentry] at hentry'
        exact hTS (Option.some.inj hentry')
      simpa [hid] using hentry
  · cases h with
    | caller h => cases h <;> simp_all

theorem reachable_owned (h : client.ReachableUnder (RegistersFreshId k) s) : Owned k s := by
  refine h.invariant (P := Owned k) ?_ ?_
  · intro T hT
    exact absurd hT.1 (by simp [client, State.init, CallPc.registered])
  · intro s a s' hr hi hok hs
    obtain ⟨hp, hfresh⟩ := reachable_phase hr.reachable
    exact (step_inv hs).owned hp hfresh hok hi

/-! ### Requests in flight are cancellable -/

/-- What it means that a `cancelRequest` call reaches a session: the call that looks its
id up finds it. -/
def Reaches (s : State) (n : Nat) (T : SessionId) : Prop :=
  s.cancel n = .find (s.session T).m_id →
    ∀ s', step s (.canceller n) = some s' → s'.cancel n = .lockCancel T

/-- The session in flight is the entry under its own id, the completion of another session
keeps it there, and every `cancelRequest` call with its id reaches it. -/
structure Cancellable (s : State) (T : SessionId) : Prop where
  entry : s.m_active_sessions (mapKey (s.session T).m_id) = some T
  kept : ∀ S op s', S ≠ T → step s (.handler S op) = some s' →
    s'.m_active_sessions (mapKey (s.session T).m_id) = some T
  reached : ∀ n, Reaches s n T

/-- **A request in flight is cancellable**, in every run in which no call registers its id while
a session with this id is in flight. -/
theorem inFlight_cancellable (hr : client.ReachableUnder (RegistersFreshId (s.session T).m_id) s)
    (hT : (s.session T).InFlight) : Cancellable s T := by
  obtain ⟨hp, hfresh⟩ := reachable_phase hr.reachable
  have hown := reachable_owned hr
  refine ⟨hown T hT rfl, ?_, ?_⟩
  · intro S op s' hne hs
    have hst := step_inv hs
    have hne' : ∀ o, Action.handler S op = .handler T o → (s.session T).pc o ≠ .eraseEntry :=
      fun o ho => absurd (Action.handler.inj ho).1 hne
    have hfl := hst.inFlight (hfresh _ (Nat.le_refl _)) hT hne'
    have hid := hst.m_id (Nat.ne_of_lt (hT.lt_next hfresh))
    exact hst.owned hp hfresh trivial hown T hfl hid
  · intro n hn s' hs
    have hentry := hown T hT rfl
    cases step_inv hs with
    | canceller h => cases h <;> simp_all

/-- A step that breaks the condition takes the entry away from a session in flight. -/
theorem not_owned_of_registers_twice (hr : client.Reachable s) (hs : step s a = some s')
    (hbad : ¬ RegistersFreshId k s a) : ¬ Owned k s' := by
  intro hown
  obtain ⟨hp, hfresh⟩ := reachable_phase hr
  have hst := step_inv hs
  cases a with
  | caller S opened =>
      simp only [RegistersFreshId, not_forall, not_not] at hbad
      obtain ⟨hc, hS, T, hlt, hT, hk⟩ := hbad
      have hTS : T ≠ S := by
        intro heq
        subst heq
        exact absurd hT.1 (by rw [hc]; decide)
      have hmap : s'.m_active_sessions (mapKey k) = some S := by
        rw [← hS]
        cases hst with
        | caller h => cases h <;> simp_all
      have hfl := hst.inFlight (hfresh _ (Nat.le_refl _)) hT nofun
      have hentry := hown T hfl ((hst.m_id (Nat.ne_of_lt hlt)).trans hk)
      rw [hmap] at hentry
      exact hTS (Option.some.inj hentry).symm
  | _ => exact hbad trivial

instance {x : Session} : Decidable x.PastErase :=
  decidable_of_iff (x.callbacks ≠ [] ∨ (x.pc .connect).pastErase = true ∨
      (x.pc .write).pastErase = true ∨ (x.pc .read).pastErase = true)
    (or_congr_right ⟨fun h => by rcases h with h | h | h <;> exact ⟨_, h⟩,
      fun ⟨op, h⟩ => by cases op <;> simp [h]⟩)

instance {x : Session} : Decidable x.InFlight := inferInstanceAs (Decidable (_ ∧ _))

instance : Decidable (RegistersFreshId k s a) :=
  match a with
  | .caller _ _ => inferInstanceAs (Decidable (_ → _ → ∀ T < s.next, _ → _))
  | .complete .. | .handler .. | .cancelRequest .. | .canceller .. | .close
  | .emulateLongComputationOp .. => isTrue trivial

/-- Three requests with the ids 1, 2 and 2 are registered. -/
def otherIdReusedRun : List Action :=
  [.emulateLongComputationOp true 10 1, .caller 0 true, .caller 0 true, .caller 0 true,
    .caller 0 true, .caller 0 true,
    .emulateLongComputationOp true 10 2, .caller 1 true, .caller 1 true, .caller 1 true,
    .caller 1 true, .caller 1 true,
    .emulateLongComputationOp true 10 2, .caller 2 true, .caller 2 true, .caller 2 true,
    .caller 2 true, .caller 2 true]

/-- The request with the id 1 stays cancellable. -/
theorem inFlight_cancellable_otherIdReused :
    ∃ s, client.ReachableUnder (RegistersFreshId 1) s ∧
      s.m_active_sessions 2 = some 2 ∧ Cancellable s 0 := by
  have hrun : (client.execUnder (RegistersFreshId 1) client.init otherIdReusedRun).map (fun s =>
      (s.m_active_sessions 2, decide (s.session 0).InFlight, (s.session 0).m_id)) =
        some (some 2, true, 1) := by decide
  obtain ⟨s, hs, he⟩ := Option.map_eq_some_iff.mp hrun
  simp only [Prod.mk.injEq, decide_eq_true_eq] at he
  obtain ⟨hmap, hfl, hid⟩ := he
  have hr := TransitionSystem.reachableUnder_of_execUnder hs
  exact ⟨s, hr, hmap, inFlight_cancellable (hid.symm ▸ hr) hfl⟩

/-- The second of two requests with id 7 is registered; then the connect of the first one
fails. -/
def reusedIdRun : List Action :=
  [.emulateLongComputationOp true 10 7, .caller 0 true, .caller 0 true, .caller 0 true,
    .caller 0 true, .caller 0 true,
    .emulateLongComputationOp true 11 7, .caller 1 true, .caller 1 true, .caller 1 true,
    .caller 1 true, .caller 1 true,
    .complete 0 .connect .eof [], .handler 0 .connect, .handler 0 .connect,
    .handler 0 .connect, .handler 0 .connect]

/-- The completion of the first request has erased the entry of the second. -/
theorem not_cancellable_reusedId :
    ¬ ∀ s, client.Reachable s → ∀ T, (s.session T).InFlight → Cancellable s T := by
  intro h
  have hrun : (client.exec client.init reusedIdRun).map (fun s =>
      (decide (s.session 1).InFlight, (s.session 1).m_id, s.m_active_sessions 7)) =
        some (true, 7, none) := by decide
  obtain ⟨s, hs, he⟩ := Option.map_eq_some_iff.mp hrun
  simp only [Prod.mk.injEq, decide_eq_true_eq] at he
  obtain ⟨hfl, hid, hmap⟩ := he
  have hentry := (h s (TransitionSystem.reachable_of_exec hs) 1 hfl).entry
  have hkey : mapKey 7 = 7 := by decide
  rw [hid, hkey, hmap] at hentry
  exact absurd hentry nofun

end AsioStudy.AsyncTcpClient
