import Mathlib.Logic.Relation
import Mathlib.Data.List.Basic
import Mathlib.Data.List.Induction

/-!
# AsioStudy.Core.TransitionSystem

Labelled transition systems with a **partial step function**: `step s a` is the
state after action `a`, or `none` when `a` is not enabled in `s` (a thread whose
mutex is taken, an operation that is not pending). Keeping the step a function
lets concrete runs be evaluated (`exec`), while every safety result is stated over
the inductive `ReachableUnder`.

`ReachableUnder ok` follows only the runs all of whose steps satisfy `ok`, a
condition on the state before the step and the action. Plain reachability is the
instance where every step is allowed, so each invariant rule below is proved once
and serves both the unconditional and the conditional results.
-/

namespace AsioStudy

/-- A transition system: an initial state and a partial step function. -/
structure TransitionSystem (σ α : Type*) where
  init : σ
  step : σ → α → Option σ

namespace TransitionSystem

variable {σ α : Type*} (M : TransitionSystem σ α)

/-- The states of runs from the initial state all of whose steps satisfy `ok`. -/
inductive ReachableUnder (ok : σ → α → Prop) : σ → Prop
  | init : ReachableUnder ok M.init
  | step {s s' : σ} {a : α} :
      ReachableUnder ok s → ok s a → M.step s a = some s' → ReachableUnder ok s'

/-- The states of arbitrary runs. -/
def Reachable : σ → Prop := M.ReachableUnder fun _ _ => True

/-- Run a sequence of actions; `none` as soon as one of them is not enabled. -/
def exec : σ → List α → Option σ
  | s, [] => some s
  | s, a :: as => (M.step s a).bind fun s' => exec s' as

variable {M} {ok : σ → α → Prop} {s s' s'' : σ} {a : α}

@[simp] theorem exec_nil : M.exec s [] = some s := rfl

theorem exec_cons (as : List α) :
    M.exec s (a :: as) = (M.step s a).bind fun s' => M.exec s' as := rfl

/-- A run that begins with a given step. -/
theorem exec_cons_of_step {as : List α} (hs : M.step s a = some s') (he : M.exec s' as = some s'') :
    M.exec s (a :: as) = some s'' := by
  rw [exec_cons, hs]
  exact he

/-! ### Reachability -/

theorem Reachable.init : M.Reachable M.init := ReachableUnder.init

theorem Reachable.step (h : M.Reachable s) (hs : M.step s a = some s') : M.Reachable s' :=
  ReachableUnder.step h trivial hs

/-- A conditional run is a run. -/
theorem ReachableUnder.reachable (h : M.ReachableUnder ok s) : M.Reachable s := by
  induction h with
  | init => exact Reachable.init
  | step _ _ hs ih => exact ih.step hs

theorem Reachable.exec {as : List α} (h : M.Reachable s) (he : M.exec s as = some s') :
    M.Reachable s' := by
  induction as generalizing s with
  | nil =>
      obtain rfl : s = s' := by simpa using he
      exact h
  | cons a as ih =>
      rw [exec_cons, Option.bind_eq_some_iff] at he
      obtain ⟨t, hst, hte⟩ := he
      exact ih (h.step hst) hte

/-- A run of the executable semantics reaches its last state. -/
theorem reachable_of_exec {as : List α} (he : M.exec M.init as = some s) : M.Reachable s :=
  Reachable.init.exec he

theorem exec_append (as bs : List α) :
    M.exec s (as ++ bs) = (M.exec s as).bind fun t => M.exec t bs := by
  induction as generalizing s with
  | nil => rfl
  | cons a as ih =>
      rw [List.cons_append, exec_cons, exec_cons, Option.bind_assoc]
      congr 1
      funext t
      exact ih

/-- A run through `pre`, the action `a` and `post` stops right before and right
after `a`. -/
theorem exec_split {pre post : List α} (he : M.exec s (pre ++ a :: post) = some s'') :
    ∃ t t', M.exec s pre = some t ∧ M.step t a = some t' ∧ M.exec t' post = some s'' := by
  rw [exec_append, Option.bind_eq_some_iff] at he
  obtain ⟨t, hpre, hpost⟩ := he
  rw [exec_cons, Option.bind_eq_some_iff] at hpost
  obtain ⟨t', hstep, hpost⟩ := hpost
  exact ⟨t, t', hpre, hstep, hpost⟩

variable (M) (ok) in
/-- Run a sequence of actions as long as each of them satisfies `ok`. -/
def execUnder [∀ s a, Decidable (ok s a)] : σ → List α → Option σ
  | s, [] => some s
  | s, a :: as => if ok s a then (M.step s a).bind fun s' => execUnder s' as else none

theorem ReachableUnder.exec [∀ s a, Decidable (ok s a)] {as : List α}
    (h : M.ReachableUnder ok s) (he : M.execUnder ok s as = some s') :
    M.ReachableUnder ok s' := by
  induction as generalizing s with
  | nil =>
      obtain rfl : s = s' := by simpa [execUnder] using he
      exact h
  | cons a as ih =>
      simp only [execUnder] at he
      split at he
      · next hok =>
        rw [Option.bind_eq_some_iff] at he
        obtain ⟨t, hst, hte⟩ := he
        exact ih (h.step hok hst) hte
      · exact absurd he (by simp)

/-- A conditional run is a run. -/
theorem exec_of_execUnder [∀ s a, Decidable (ok s a)] {as : List α}
    (he : M.execUnder ok s as = some s') : M.exec s as = some s' := by
  induction as generalizing s with
  | nil => exact he
  | cons a as ih =>
      simp only [execUnder] at he
      split at he
      · rw [Option.bind_eq_some_iff] at he
        obtain ⟨t, hst, hte⟩ := he
        exact exec_cons_of_step hst (ih hte)
      · exact absurd he (by simp)

/-- A conditional run of the executable semantics reaches its last state. -/
theorem reachableUnder_of_execUnder [∀ s a, Decidable (ok s a)] {as : List α}
    (he : M.execUnder ok M.init as = some s) : M.ReachableUnder ok s :=
  ReachableUnder.init.exec he

/-- A run whose actions all satisfy `ok` is a conditional run. -/
theorem reachableUnder_of_exec {ok : α → Prop} {as : List α}
    (h : M.ReachableUnder (fun _ a => ok a) s) (hok : ∀ a ∈ as, ok a)
    (he : M.exec s as = some s') : M.ReachableUnder (fun _ a => ok a) s' := by
  induction as generalizing s with
  | nil =>
      obtain rfl : s = s' := by simpa using he
      exact h
  | cons a as ih =>
      rw [exec_cons, Option.bind_eq_some_iff] at he
      obtain ⟨t, hst, hte⟩ := he
      exact ih (h.step (hok a List.mem_cons_self) hst)
        (fun b hb => hok b (List.mem_cons_of_mem a hb)) hte

/-! ### Continuations -/

variable (M) in
/-- The same system started in `s`: its runs are the continuations of the runs that have
reached `s`. -/
def after (s : σ) : TransitionSystem σ α := ⟨s, M.step⟩

theorem after_init : (M.after s).ReachableUnder ok s := ReachableUnder.init

theorem ReachableUnder.after_step (h : (M.after s).ReachableUnder ok s') (hok : ok s' a)
    (hs : M.step s' a = some s'') : (M.after s).ReachableUnder ok s'' :=
  ReachableUnder.step h hok hs

theorem after_exec (as : List α) (t : σ) : (M.after s).exec t as = M.exec t as := by
  induction as generalizing t with
  | nil => rfl
  | cons a as ih =>
      rw [exec_cons, exec_cons]
      congr 1
      funext t'
      exact ih t'

theorem reachable_after_of_exec {as : List α} (he : M.exec s as = some s') :
    (M.after s).Reachable s' :=
  reachable_of_exec ((after_exec as s).trans he)

theorem Reachable.after (h : M.Reachable s) (h' : (M.after s).ReachableUnder ok s') :
    M.Reachable s' := by
  induction h' with
  | init => exact h
  | step _ _ hs ih => exact ih.step hs

/-- **Continuation rule.** What holds in a reachable state and is preserved by every allowed
step from a reachable state holds in every allowed continuation. -/
theorem Reachable.invariant_after {P : σ → Prop} (h : M.Reachable s) (hP : P s)
    (hstep : ∀ {s a s'}, M.Reachable s → P s → ok s a → M.step s a = some s' → P s')
    (h' : (M.after s).ReachableUnder ok s') : P s' := by
  induction h' with
  | init => exact hP
  | step hr hok hs ih => exact hstep (h.after hr) ih hok hs

/-! ### Invariant rules -/

/-- **Invariant rule.** What holds initially and is preserved by every allowed step
from a reachable state holds in every state of every allowed run. -/
theorem ReachableUnder.invariant {P : σ → Prop} (h0 : P M.init)
    (hstep : ∀ {s a s'}, M.ReachableUnder ok s → P s → ok s a → M.step s a = some s' → P s')
    (h : M.ReachableUnder ok s) : P s := by
  induction h with
  | init => exact h0
  | step hr hok hs ih => exact hstep hr ih hok hs

theorem Reachable.invariant {P : σ → Prop} (h0 : P M.init)
    (hstep : ∀ {s a s'}, M.Reachable s → P s → M.step s a = some s' → P s')
    (h : M.Reachable s) : P s :=
  ReachableUnder.invariant h0 (fun hr hi _ hs => hstep hr hi hs) h

/-- **History rule.** What holds initially of the empty run and is preserved when a run goes on
by one step holds of every run and its last state. -/
theorem exec_history {P : List α → σ → Prop} (h0 : P [] M.init)
    (hstep : ∀ {as s a s'}, M.exec M.init as = some s → P as s → M.step s a = some s' →
      P (as ++ [a]) s')
    {as : List α} (he : M.exec M.init as = some s) : P as s := by
  induction as using List.reverseRecOn generalizing s with
  | nil =>
      obtain rfl : M.init = s := by simpa using he
      exact h0
  | append_singleton as a ih =>
      rw [exec_append, Option.bind_eq_some_iff] at he
      obtain ⟨t, hpre, hlast⟩ := he
      obtain ⟨t', hst, hnil⟩ := Option.bind_eq_some_iff.mp hlast
      obtain rfl : t' = s := by simpa using hnil
      exact hstep hpre (ih hpre) hst

/-- **Stability rule.** What every step from a reachable state preserves is still
true at the end of every run that continues from a state where it holds. -/
theorem Reachable.stable {P : σ → Prop}
    (hstep : ∀ {s a s'}, M.Reachable s → P s → M.step s a = some s' → P s')
    {as : List α} (h : M.Reachable s) (hP : P s) (he : M.exec s as = some s') : P s' := by
  induction as generalizing s with
  | nil =>
      obtain rfl : s = s' := by simpa using he
      exact hP
  | cons a as ih =>
      rw [exec_cons, Option.bind_eq_some_iff] at he
      obtain ⟨t, hst, hte⟩ := he
      exact ih (h.step hst) (hstep h hP hst) hte

/-- **Conditional stability rule.** What every step of an allowed action preserves is still true
at the end of every run of such actions. -/
theorem exec_stable {P : σ → Prop} {ok : α → Prop}
    (hstep : ∀ {s a s'}, P s → ok a → M.step s a = some s' → P s')
    {as : List α} (hP : P s) (hok : ∀ a ∈ as, ok a) (he : M.exec s as = some s') : P s' := by
  induction as generalizing s with
  | nil =>
      obtain rfl : s = s' := by simpa using he
      exact hP
  | cons a as ih =>
      rw [exec_cons, Option.bind_eq_some_iff] at he
      obtain ⟨t, hst, hte⟩ := he
      exact ih (hstep hP (hok a List.mem_cons_self) hst)
        (fun b hb => hok b (List.mem_cons_of_mem a hb)) hte

end TransitionSystem

end AsioStudy
