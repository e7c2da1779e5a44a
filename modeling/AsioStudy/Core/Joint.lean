import AsioStudy.Core.Termination

/-!
# AsioStudy.Core.Joint

Two systems and what lies between them. Each event of the whole is an action of the left
system, an action of the right one, or of neither, and a step of the medium between the two,
which looks at both sides and may refuse the event.

Whatever the medium does, a run of the whole is a run of either side (`exec_left`,
`exec_right`), so everything proved of one side by itself still holds of it there. A potential of
a side is paid for by it in the events it takes part in (`Potential.move`).
-/

namespace AsioStudy

variable {σ τ α β ν ε : Type*}

namespace TransitionSystem

/-- The step of a system in an event of which it takes `a`, if anything. -/
def move (M : TransitionSystem σ α) (s : σ) : Option α → Option σ
  | none => some s
  | some a => M.step s a

@[simp] theorem move_none (M : TransitionSystem σ α) (s : σ) : M.move s none = some s := rfl

@[simp] theorem move_some (M : TransitionSystem σ α) (s : σ) (a : α) :
    M.move s (some a) = M.step s a := rfl

theorem Reachable.move {M : TransitionSystem σ α} {s s' : σ} {a : Option α} (h : M.Reachable s)
    (hs : M.move s a = some s') : M.Reachable s' := by
  cases a with
  | none =>
      obtain rfl := Option.some.inj hs
      exact h
  | some a => exact h.step hs

/-- What a side pays in an event of which it takes `a`, if anything. -/
theorem Potential.move {M : TransitionSystem σ α} {ok : α → Prop} {own : α → Bool}
    {gain : α → Nat} {cost : σ → Nat} (hp : M.Potential ok own gain cost) {s s' : σ}
    {a : Option α} (hr : M.Reachable s) (hok : ∀ b ∈ a, ok b) (hs : M.move s a = some s') :
    cost s' + (a.map fun b => (own b).toNat).getD 0 ≤ cost s + (a.map gain).getD 0 := by
  cases a with
  | none =>
      obtain rfl := Option.some.inj hs
      exact Nat.le_refl _
  | some a => exact hp.pays hr (hok a rfl) hs

end TransitionSystem

/-- How two systems take part in the events of the whole, and what lies between them. -/
structure Joint (L : TransitionSystem σ α) (R : TransitionSystem τ β) (ν ε : Type*) where
  left : ε → Option α
  right : ε → Option β
  medium : ν
  step : σ → τ → ν → ε → Option ν

structure JointState (σ τ ν : Type*) where
  left : σ
  right : τ
  medium : ν

namespace Joint

variable {L : TransitionSystem σ α} {R : TransitionSystem τ β} (J : Joint L R ν ε)

/-- The whole. -/
def system : TransitionSystem (JointState σ τ ν) ε where
  init := ⟨L.init, R.init, J.medium⟩
  step s e := (J.step s.left s.right s.medium e).bind fun m =>
    (L.move s.left (J.left e)).bind fun l =>
      (R.move s.right (J.right e)).map fun r => ⟨l, r, m⟩

variable {J} {s s' : JointState σ τ ν} {e : ε} {es : List ε}

/-- An event takes place if the medium and both sides allow it. -/
theorem step_eq_some : J.system.step s e = some s' ↔
    J.step s.left s.right s.medium e = some s'.medium ∧
      L.move s.left (J.left e) = some s'.left ∧ R.move s.right (J.right e) = some s'.right := by
  constructor
  · intro h
    obtain ⟨m, hm, h⟩ := Option.bind_eq_some_iff.mp h
    obtain ⟨l, hl, h⟩ := Option.bind_eq_some_iff.mp h
    obtain ⟨r, hr, rfl⟩ := Option.map_eq_some_iff.mp h
    exact ⟨hm, hl, hr⟩
  · rintro ⟨hm, hl, hr⟩
    simp [system, hm, hl, hr]

/-- An event that does not take place is refused by the medium or by one of the sides. -/
theorem step_eq_none (h : J.system.step s e = none) (m : ν)
    (hm : J.step s.left s.right s.medium e = some m) :
    L.move s.left (J.left e) = none ∨ R.move s.right (J.right e) = none := by
  cases hl : L.move s.left (J.left e) with
  | none => exact .inl rfl
  | some l =>
      refine .inr ?_
      by_contra hne
      obtain ⟨r, hr⟩ := Option.ne_none_iff_exists'.mp hne
      have hstep : J.system.step s e = some ⟨l, r, m⟩ := step_eq_some.mpr ⟨hm, hl, hr⟩
      exact absurd (h.symm.trans hstep) nofun

theorem reachable_sides (h : J.system.Reachable s) : L.Reachable s.left ∧ R.Reachable s.right := by
  refine h.invariant (P := fun s => L.Reachable s.left ∧ R.Reachable s.right) ⟨.init, .init⟩ ?_
  rintro s e s' - ⟨hl, hr⟩ hs
  obtain ⟨-, hleft, hright⟩ := step_eq_some.mp hs
  exact ⟨hl.move hleft, hr.move hright⟩

/-- What a side takes of one more event goes before the rest of its run. -/
theorem exec_move {M : TransitionSystem σ α} {t t' t'' : σ} {as : List α} {a : Option α}
    (hs : M.move t a = some t') (he : M.exec t' as = some t'') :
    M.exec t (a.toList ++ as) = some t'' := by
  cases a with
  | none =>
      obtain rfl := Option.some.inj hs
      exact he
  | some a => exact TransitionSystem.exec_cons_of_step hs he

theorem filterMap_cons_toList {γ : Type*} (f : ε → Option γ) (e : ε) (es : List ε) :
    (e :: es).filterMap f = (f e).toList ++ es.filterMap f := by
  cases h : f e <;> simp [h]

/-- **A run of the whole is a run of the left side.** -/
theorem exec_left (he : J.system.exec s es = some s') :
    L.exec s.left (es.filterMap J.left) = some s'.left := by
  induction es generalizing s with
  | nil =>
      obtain rfl : s = s' := by simpa using he
      rfl
  | cons e es ih =>
      obtain ⟨t, hst, hte⟩ := Option.bind_eq_some_iff.mp he
      rw [filterMap_cons_toList]
      exact exec_move (step_eq_some.mp hst).2.1 (ih hte)

theorem exec_right (he : J.system.exec s es = some s') :
    R.exec s.right (es.filterMap J.right) = some s'.right := by
  induction es generalizing s with
  | nil =>
      obtain rfl : s = s' := by simpa using he
      rfl
  | cons e es ih =>
      obtain ⟨t, hst, hte⟩ := Option.bind_eq_some_iff.mp he
      rw [filterMap_cons_toList]
      exact exec_move (step_eq_some.mp hst).2.2 (ih hte)

end Joint

end AsioStudy
