import Mathlib.Logic.Function.Basic
import Mathlib.Logic.Relation

/-!
# AsioStudy.Core.Mutex

Mutexes as explicit state: `Mutexes μ τ` records for every mutex the thread that
owns it. `lock` is partial — it is not enabled while another thread owns the mutex —
and `release` is the destructor of a scoped `unique_lock`: it gives the mutex back
only when the thread owns it.

`Guarded` is mutual exclusion: the threads inside the critical sections of a mutex are
exactly its owner. It is kept by every step that enters, leaves or stays outside a
section the way `SectionStep` describes.

The last part is the **wait-for graph** over such a table: `WaitsFor t u` says
that `t` is about to lock a mutex that `u` owns. A deadlock is a cycle of that graph.
-/

namespace AsioStudy

/-- The owner of each mutex. -/
abbrev Mutexes (μ τ : Type*) := μ → Option τ

namespace Mutexes

variable {μ τ : Type*} [DecidableEq μ]

/-- Every mutex free. -/
def free : Mutexes μ τ := fun _ => none

/-- Take `m` for thread `t`; not enabled while it is owned. -/
def lock (g : Mutexes μ τ) (m : μ) (t : τ) : Option (Mutexes μ τ) :=
  match g m with
  | none => some (Function.update g m (some t))
  | some _ => none

/-- `unique_lock::unlock`: give `m` back. -/
def unlock (g : Mutexes μ τ) (m : μ) : Mutexes μ τ := Function.update g m none

/-- The destructor of a `unique_lock` of thread `t` on `m`: unlock it if it is owned. -/
def release [DecidableEq τ] (g : Mutexes μ τ) (m : μ) (t : τ) : Mutexes μ τ :=
  if g m = some t then g.unlock m else g

variable {g g' : Mutexes μ τ} {m m' : μ} {t u : τ}

omit [DecidableEq μ] in
@[simp] theorem free_apply (m : μ) : (free : Mutexes μ τ) m = none := rfl

/-- Locking succeeds exactly on a free mutex, and then records its owner. -/
theorem lock_eq_some : g.lock m t = some g' ↔ g m = none ∧ g' = Function.update g m (some t) := by
  unfold lock
  cases hm : g m with
  | none => simp [eq_comm]
  | some u => simp

/-- Locking fails exactly on a mutex that is owned. -/
theorem lock_eq_none : g.lock m t = none ↔ ∃ u, g m = some u := by
  unfold lock
  cases hm : g m with
  | none => simp
  | some u => simp

/-- The same for a state that is made of the mutexes. -/
theorem lock_map_eq_some {σ : Type*} {mk : Mutexes μ τ → σ} {s : σ} :
    (g.lock m t).map mk = some s ↔ g m = none ∧ s = mk (Function.update g m (some t)) := by
  simp only [Option.map_eq_some_iff, lock_eq_some]
  constructor
  · intro h
    obtain ⟨g', ⟨hfree, rfl⟩, rfl⟩ := h
    exact ⟨hfree, rfl⟩
  · intro h
    obtain ⟨hfree, rfl⟩ := h
    exact ⟨_, ⟨hfree, rfl⟩, rfl⟩

theorem unlock_apply : g.unlock m m' = if m' = m then none else g m' := by
  simp [unlock, Function.update_apply]

/-- After a scoped lock is gone its thread does not own the mutex, and no other
ownership has changed. -/
theorem release_apply [DecidableEq τ] :
    g.release m t m' = if m' = m ∧ g m = some t then none else g m' := by
  unfold release
  by_cases h : g m = some t
  · simp [h, unlock_apply]
  · simp [h]

/-! ### Critical sections -/

omit [DecidableEq μ]

/-- The thread inside a critical section is the owner of its mutex. -/
def Guarded (inside : τ → Bool) (owner : Option τ) : Prop :=
  ∀ t, inside t = true ↔ owner = some t

/-- What a step of thread `t` may do to the critical sections of a mutex. -/
inductive SectionStep (t : τ) (inside inside' : τ → Bool) (owner owner' : Option τ) : Prop
  | enter : owner = none → owner' = some t → inside' t = true →
      (∀ u ≠ t, inside' u = inside u) → SectionStep t inside inside' owner owner'
  | leave : inside t = true → owner' = none → inside' t = false →
      (∀ u ≠ t, inside' u = inside u) → SectionStep t inside inside' owner owner'
  | stay : owner' = owner → inside' t = inside t →
      (∀ u ≠ t, inside' u = inside u) → SectionStep t inside inside' owner owner'

variable {inside inside' : τ → Bool} {owner owner' : Option τ}

theorem Guarded.unique (h : Guarded inside owner) (ht : inside t = true) (hu : inside u = true) :
    t = u :=
  Option.some.inj (((h t).mp ht).symm.trans ((h u).mp hu))

/-- Mutual exclusion is kept by every step that respects the critical sections. -/
theorem Guarded.step (h : Guarded inside owner) (hs : SectionStep t inside inside' owner owner') :
    Guarded inside' owner' := by
  intro u
  by_cases hu : u = t
  · subst hu
    cases hs with
    | enter _ hown hin _ => simp [hown, hin]
    | leave _ hown hin _ => simp [hown, hin]
    | stay hown hin _ => rw [hown, hin]; exact h u
  · have hut : ¬ t = u := fun he => hu he.symm
    cases hs with
    | enter hfree hown _ hothers => rw [hothers u hu, hown, h u, hfree]; simp [hut]
    | leave hin hown _ hothers =>
        rw [hothers u hu, hown]
        exact ⟨fun hiu => absurd (h.unique hiu hin) hu, nofun⟩
    | stay hown _ hothers => rw [hothers u hu, hown]; exact h u

/-! ### The wait-for graph -/

/-- `t` is about to lock a mutex that `u` owns. -/
def WaitsFor (waits : τ → μ → Prop) (g : Mutexes μ τ) (t u : τ) : Prop :=
  ∃ m, waits t m ∧ g m = some u

/-- `t` is on a cycle of threads each of which waits for a mutex the next one owns. -/
def OnCycle (waits : τ → μ → Prop) (g : Mutexes μ τ) (t : τ) : Prop :=
  Relation.TransGen (WaitsFor waits g) t t

/-- A deadlock: the wait-for graph has a cycle. -/
def Deadlock (waits : τ → μ → Prop) (g : Mutexes μ τ) : Prop := ∃ t, OnCycle waits g t

/-- The successor on a cycle is on a cycle too, so every thread of a cycle waits. -/
theorem OnCycle.next {waits : τ → μ → Prop} (h : OnCycle waits g t) :
    ∃ m u, waits t m ∧ g m = some u ∧ OnCycle waits g u := by
  obtain ⟨u, hedge, hrest⟩ := Relation.TransGen.head'_iff.mp h
  obtain ⟨m, hw, hown⟩ := hedge
  exact ⟨m, u, hw, hown, Relation.TransGen.tail' hrest ⟨m, hw, hown⟩⟩

/-- Two threads that wait for each other's mutex are deadlocked. -/
theorem Deadlock.of_pair {waits : τ → μ → Prop} (ht : waits t m) (hm : g m = some u)
    (hu : waits u m') (hm' : g m' = some t) : Deadlock waits g :=
  ⟨t, .tail (.single ⟨m, ht, hm⟩) ⟨m', hu, hm'⟩⟩

end Mutexes

end AsioStudy
