import AsioStudy.AsyncTcpClient.Locks

/-!
# AsioStudy.AsyncTcpClient.Registry

The map `m_active_sessions`. Registration overwrites by key and completion erases by
key, so an entry may belong to another session than the one that put it there; what
holds in every run (`Registry`) is that an entry is stored under its own session's id
and that this session has been registered and has not passed the erase step of
`onRequestComplete`. A `cancelRequest` call that has found a session keeps
`m_active_sessions_guard` locked, so the entry stays where it is until the call is done.
-/

namespace AsioStudy.AsyncTcpClient

/-- The call has executed `m_active_sessions[request_id] = session`. -/
def CallPc.registered : CallPc → Bool
  | .unlockActive | .asyncConnect | .returned => true
  | _ => false

/-- The handler has executed the erase step of `onRequestComplete` and not yet invoked
the callback. -/
def HandlerPc.pastErase : HandlerPc → Bool
  | .unlockActive | .report | .callback _ => true
  | _ => false

/-- The session a `cancelRequest` call has found. -/
def CancelPc.target : CancelPc → Option SessionId
  | .lockCancel S | .setCancelled S | .cancelSock S | .unlockCancel S => some S
  | _ => none

/-- The session has passed the erase step of `onRequestComplete`. -/
def Session.PastErase (x : Session) : Prop :=
  x.callbacks ≠ [] ∨ ∃ op, (x.pc op).pastErase = true

/-- The session is registered and not yet completed. -/
def Session.InFlight (x : Session) : Prop := x.call.registered = true ∧ ¬ x.PastErase

/-- What holds of `m_active_sessions` in every run. -/
structure Registry (s : State) : Prop where
  entry : ∀ k S, s.m_active_sessions k = some S →
    k = mapKey (s.session S).m_id ∧ (s.session S).InFlight
  target : ∀ n S, (s.cancel n).target = some S →
    s.m_active_sessions (mapKey (s.session S).m_id) = some S

/-- `unsigned int` to `int` identifies no two ids. -/
theorem mapKey_injective {id id' : UInt32} (h : mapKey id = mapKey id') : id = id' :=
  UInt32.toBitVec_inj.mp (BitVec.toInt_inj.mp h)

variable {s s' : State} {a : Action} {S T : SessionId} {op : Op} {n : Nat} {x y : Session}

theorem Session.not_pastErase_of_untouched {x : Session} (h : x.Untouched) : ¬ x.PastErase := by
  rintro (hcb | ⟨op, hop⟩)
  · exact hcb h.2
  · rw [h.1 op] at hop
    exact absurd hop (by decide)

/-- A session keeps being in flight while its call is past the registration and no
handler of it moves past the erase step. -/
theorem Session.InFlight.of_le {x y : Session} (h : x.InFlight)
    (hcall : x.call.registered = true → y.call.registered = true)
    (hcb : y.callbacks = x.callbacks)
    (hpc : ∀ op, (y.pc op).pastErase = true → (x.pc op).pastErase = true) : y.InFlight := by
  refine ⟨hcall h.1, ?_⟩
  rintro (hne | ⟨op, hop⟩)
  · exact h.2 (.inl (hcb ▸ hne))
  · exact h.2 (.inr ⟨op, hpc op hop⟩)

/-- A change of the handler of `op` alone that does not move it past the erase step. -/
theorem Session.InFlight.setPc {x : Session} (h : x.InFlight) (op : Op) {pc : HandlerPc}
    (hpc : pc.pastErase = false) : (x.setPc op pc).InFlight := by
  refine h.of_le (by simp) (by simp) ?_
  intro o ho
  by_cases hop : o = op
  · simp [hop, hpc] at ho
  · simpa [hop] using ho

/-! ### What a step does to a session in flight -/

theorem CallMove.inFlight (h : CallMove x y) (hx : x.InFlight) : y.InFlight := by
  cases h with
  | opened hc => exact absurd hx.1 (by rw [hc]; decide)
  | openThrows hc => exact absurd hx.1 (by rw [hc]; decide)
  | lockActive hc => exact absurd hx.1 (by rw [hc]; decide)
  | insert hc => exact absurd hx.1 (by rw [hc]; decide)
  | unlockActive hc => exact hx.of_le (fun _ => rfl) rfl (fun _ => id)
  | asyncConnect hc => exact (hx.setPc .connect rfl).of_le (fun _ => rfl) rfl (fun _ => id)

/-- Only the erase step of its own handler ends the flight of a session. -/
theorem HandlerMove.inFlight (h : HandlerMove x op y) (hx : x.InFlight)
    (hne : x.pc op ≠ .eraseEntry) : y.InFlight := by
  have hpast : (x.pc op).pastErase = false := by
    cases he : (x.pc op).pastErase with
    | false => rfl
    | true => exact absurd (.inr ⟨op, he⟩) hx.2
  cases h with
  | @enter ec hpc =>
      have henter : (Session.enterPc op ec).pastErase = false := by
        unfold Session.enterPc; split <;> rfl
      refine (hx.setPc op henter).of_le (by simp) (by simp) ?_
      intro o
      simp
  | eraseEntry hpc => exact absurd hpc hne
  | unlockActive hpc => exact absurd hpast (by rw [hpc]; decide)
  | report hpc => exact absurd hpast (by rw [hpc]; decide)
  | callback hpc => exact absurd hpast (by rw [hpc]; simp [HandlerPc.pastErase])
  | startNext hpc hn => exact (hx.setPc _ rfl).setPc op rfl
  | _ => exact hx.setPc op rfl

/-- The id of a session never changes once it is constructed. -/
theorem SessionStep.m_id (h : SessionStep s T a y) (hT : T ≠ s.next) :
    y.m_id = (s.session T).m_id := by
  cases h with
  | construct hn => exact absurd hn hT
  | caller h => cases h <;> simp
  | complete _ => simp
  | handler h => cases h <;> simp
  | setCancelled _ => rfl

theorem Step.m_id (h : Step s a s') (hT : T ≠ s.next) :
    (s'.session T).m_id = (s.session T).m_id := by
  rcases h.session T with hsame | hs
  · rw [hsame]
  · exact hs.m_id hT

/-- A constructed session is not the one about to be constructed. -/
theorem Session.InFlight.ne_next (h : (s.session T).InFlight)
    (hnew : (s.session s.next).InPhase .absent) : T ≠ s.next := by
  intro he
  subst he
  exact absurd h.1 (by rw [hnew.1]; decide)

theorem SessionStep.inFlight (h : SessionStep s T a y) (hnew : (s.session s.next).InPhase .absent)
    (hT : (s.session T).InFlight)
    (hne : ∀ op, a = .handler T op → (s.session T).pc op ≠ .eraseEntry) : y.InFlight := by
  cases h with
  | construct hn => exact absurd hn (hT.ne_next hnew)
  | caller h => exact h.inFlight hT
  | @complete op _ received _ =>
      have hreceive : ((s.session T).receive op received).InFlight :=
        hT.of_le (by simp) (by simp) (by simp)
      exact hreceive.setPc op rfl
  | @handler op _ h => exact h.inFlight hT (hne op rfl)
  | setCancelled _ => exact hT

/-- A session in flight stays in flight until the erase step of its own handler. -/
theorem Step.inFlight (h : Step s a s') (hnew : (s.session s.next).InPhase .absent)
    (hT : (s.session T).InFlight)
    (hne : ∀ op, a = .handler T op → (s.session T).pc op ≠ .eraseEntry) :
    (s'.session T).InFlight := by
  rcases h.session T with hsame | hs
  · rw [hsame]
    exact hT
  · exact hs.inFlight hnew hT hne

/-! ### What a step does to the map -/

/-- Only the registration and the erase step change the map. -/
theorem Step.map_cases (h : Step s a s') :
    s'.m_active_sessions = s.m_active_sessions ∨
    (∃ S opened, a = .caller S opened ∧ (s.session S).call = .insert ∧
      s' = (s.insert S).setCall S .unlockActive) ∨
    ∃ S op, a = .handler S op ∧ (s.session S).pc op = .eraseEntry ∧
      s' = (s.erase S).setPc S op .unlockActive := by
  cases h with
  | @caller S opened _ h =>
      cases h with
      | insert hc => exact .inr (.inl ⟨S, opened, rfl, hc, rfl⟩)
      | _ => exact .inl rfl
  | @handler S op _ h =>
      cases h with
      | eraseEntry hpc => exact .inr (.inr ⟨S, op, rfl, hpc, rfl⟩)
      | _ => exact .inl rfl
  | canceller h => cases h <;> exact .inl rfl
  | _ => exact .inl rfl

/-- A `cancelRequest` call gets its target from the map. -/
theorem Step.target (h : Step s a s') (hn : (s'.cancel n).target = some T) :
    (s.cancel n).target = some T ∨
    a = .canceller n ∧ s' = s.setCancel n (.lockCancel T) ∧
      ∃ id, s.m_active_sessions (mapKey id) = some T := by
  cases h with
  | caller h => exact .inl (by cases h <;> exact hn)
  | handler h => exact .inl (by cases h <;> exact hn)
  | @cancelRequest m id hpc =>
      by_cases hm : n = m
      · subst hm
        simp [CancelPc.target] at hn
      · exact .inl (by simpa [hm] using hn)
  | @canceller m _ h =>
      by_cases hm : n = m
      · subst hm
        cases h with
        | lockActive hpc _ => simp [CancelPc.target] at hn
        | @found id S hpc hmap =>
            obtain rfl : S = T := by simpa [CancelPc.target] using hn
            exact .inr ⟨rfl, rfl, id, hmap⟩
        | notFound hpc _ => simp [CancelPc.target] at hn
        | lockCancel hpc _ => exact .inl (by simpa [hpc, CancelPc.target] using hn)
        | setCancelled hpc => exact .inl (by simpa [hpc, CancelPc.target] using hn)
        | cancelSock hpc => exact .inl (by simpa [hpc, CancelPc.target] using hn)
        | unlockCancel hpc => simp [CancelPc.target] at hn
        | unlockActive hpc => simp [CancelPc.target] at hn
      · cases h <;> exact .inl (by simpa [hm] using hn)
  | _ => exact .inl hn

theorem CancelPc.holdsActive_of_target {pc : CancelPc} (h : pc.target = some S) :
    pc.holdsActive = true := by
  cases pc <;> simp [CancelPc.target] at h <;> rfl

/-- A session in flight has been constructed. -/
theorem Session.InFlight.lt_next (h : (s.session T).InFlight)
    (hfresh : ∀ S ≥ s.next, (s.session S).InPhase .absent) : T < s.next :=
  Nat.lt_of_not_le fun hle => absurd h.1 (by rw [(hfresh T hle).1]; decide)

/-- The registry invariant is kept by every step. -/
theorem Step.registry (h : Step s a s') (hp : ∀ T, ∃ p, (s.session T).InPhase p)
    (hnew : (s.session s.next).InPhase .absent) (hact : ActiveGuard s) (hi : Registry s) :
    Registry s' := by
  refine ⟨?_, ?_⟩
  · -- an entry of the new map is the one just registered, or an old one that was not erased
    intro k T hk
    rcases h.map_cases with hmap | ⟨S, opened, rfl, hc, rfl⟩ | ⟨S, op, rfl, hpc, rfl⟩
    · rw [hmap] at hk
      obtain ⟨hkey, hfl⟩ := hi.entry k T hk
      rw [h.m_id (hfl.ne_next hnew)]
      refine ⟨hkey, h.inFlight hnew hfl ?_⟩
      rintro op rfl hpc
      have herase : s'.m_active_sessions (mapKey (s.session T).m_id) = none := by
        cases h with
        | handler h => cases h <;> simp_all
      rw [hmap, ← hkey, hk] at herase
      exact absurd herase (by simp)
    · by_cases hkS : k = mapKey (s.session S).m_id
      · obtain rfl : S = T := by simpa [hkS] using hk
        obtain ⟨p, hp⟩ := hp S
        obtain rfl := hp.eq_calling (by rw [hc]; rfl)
        have hun : ((s.session S).setCall .unlockActive).Untouched := hp.2
        exact ⟨by simpa using hkS, by simpa using ⟨rfl, Session.not_pastErase_of_untouched hun⟩⟩
      · have hold : s.m_active_sessions k = some T := by simpa [hkS] using hk
        obtain ⟨hkey, hfl⟩ := hi.entry k T hold
        rw [h.m_id (hfl.ne_next hnew)]
        exact ⟨hkey, h.inFlight hnew hfl nofun⟩
    · by_cases hkS : k = mapKey (s.session S).m_id
      · simp [hkS] at hk
      · have hold : s.m_active_sessions k = some T := by simpa [hkS] using hk
        obtain ⟨hkey, hfl⟩ := hi.entry k T hold
        rw [h.m_id (hfl.ne_next hnew)]
        refine ⟨hkey, h.inFlight hnew hfl ?_⟩
        rintro o ho
        obtain ⟨rfl, rfl⟩ := Action.handler.inj ho
        exact absurd hkey hkS
  · -- the map is not changed by another thread while the call holds its mutex
    intro n T hn
    have hkeep : (s.cancel n).target = some T →
        s'.m_active_sessions = s.m_active_sessions →
        s'.m_active_sessions (mapKey (s'.session T).m_id) = some T := by
      intro hold hmap
      have hentry := hi.target n T hold
      rw [h.m_id ((hi.entry _ T hentry).2.ne_next hnew), hmap, hentry]
    rcases h.target hn with hold | ⟨rfl, rfl, id, hid⟩
    · have hin : s.holdsActive (.canceller n) = true := CancelPc.holdsActive_of_target hold
      rcases h.map_cases with hmap | ⟨S, opened, rfl, hc, rfl⟩ | ⟨S, op, rfl, hpc, rfl⟩
      · exact hkeep hold hmap
      · have hin' : s.holdsActive (.caller S) = true := by
          simp [State.holdsActive, hc, CallPc.holdsActive]
        exact absurd (Mutexes.Guarded.unique hact hin hin') (by simp)
      · have hin' : s.holdsActive (.handler S op) = true := by
          simp [State.holdsActive, hpc, HandlerPc.holdsActive]
        exact absurd (Mutexes.Guarded.unique hact hin hin') (by simp)
    · obtain ⟨hkey, -⟩ := hi.entry _ T hid
      simpa [← hkey] using hid

/-- **The registry invariant** holds in every reachable state. -/
theorem reachable_registry (h : client.Reachable s) : Registry s := by
  refine h.invariant (P := Registry) ⟨?_, ?_⟩ ?_
  · intro k S hk
    exact absurd hk nofun
  · intro n S hn
    exact absurd hn nofun
  · intro s a s' hr hi hs
    obtain ⟨hp, hfresh⟩ := reachable_phase hr
    exact (step_inv hs).registry hp (hfresh _ (Nat.le_refl _)) (reachable_locks hr).1 hi

end AsioStudy.AsyncTcpClient
