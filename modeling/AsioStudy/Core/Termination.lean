import Mathlib.Algebra.GroupWithZero.Nat
import Mathlib.Algebra.BigOperators.Group.Finset.Basic
import Mathlib.Algebra.Order.BigOperators.Group.Finset
import Mathlib.Data.List.Perm.Basic
import AsioStudy.Core.TransitionSystem

/-!
# AsioStudy.Core.Termination

Runs that come to an end. Some actions of a system are steps of its own (`own`), the others
are calls from outside. A **potential** pays for the own steps: each uses up one unit, and a
call adds what it may cause. Hence a run has no more own steps than its calls have paid for
(`Potential.countP_le`), and a system that is left alone comes to rest
(`Potential.exists_rest`).
-/

namespace AsioStudy

open Finset

namespace TransitionSystem

variable {σ α : Type*} (M : TransitionSystem σ α)

/-- The system can do nothing more by itself. -/
def Quiescent (own : α → Bool) (s : σ) : Prop := ∀ a, own a = true → M.step s a = none

/-- Every own step uses up one unit of `cost`; an action adds at most `gain a`. Only the
actions that satisfy `ok` are looked at. -/
structure Potential (ok : α → Prop) (own : α → Bool) (gain : α → Nat) (cost : σ → Nat) :
    Prop where
  pays : ∀ {s a s'}, M.Reachable s → ok a → M.step s a = some s' →
    cost s' + (own a).toNat ≤ cost s + gain a

variable {M} {ok : α → Prop} {own : α → Bool} {gain : α → Nat} {cost : σ → Nat} {s s' : σ}

theorem Potential.mono {own' : α → Bool} (hp : M.Potential ok own gain cost)
    (h : ∀ a, own' a = true → own a = true) : M.Potential ok own' gain cost := by
  refine ⟨?_⟩
  intro s a s' hr hok hs
  have hpay := hp.pays hr hok hs
  cases hown : own' a with
  | false => simp only [Bool.toNat_false]; omega
  | true => rwa [h a hown] at hpay

/-- **A run has no more own steps than have been paid for.** -/
theorem Potential.countP_le (hp : M.Potential ok own gain cost) {as : List α}
    (hr : M.Reachable s) (hok : ∀ a ∈ as, ok a) (he : M.exec s as = some s') :
    cost s' + as.countP own ≤ cost s + (as.map gain).sum := by
  induction as generalizing s with
  | nil =>
      obtain rfl : s = s' := by simpa using he
      simp
  | cons a as ih =>
      rw [exec_cons, Option.bind_eq_some_iff] at he
      obtain ⟨t, hst, hte⟩ := he
      have hpay := hp.pays hr (hok a List.mem_cons_self) hst
      have hrest := ih (hr.step hst) (fun b hb => hok b (List.mem_cons_of_mem a hb)) hte
      rw [List.countP_cons, List.map_cons, List.sum_cons]
      cases hown : own a <;> simp [hown] at hpay ⊢ <;> omega

/-- **A system that is left alone comes to rest**, as far as the actions that satisfy `ok` and
the steps that are `allowed` go. -/
theorem Potential.exists_rest (hp : M.Potential ok own gain cost)
    (hgain : ∀ a, own a = true → gain a = 0) (allowed : σ → α → Prop)
    [∀ s a, Decidable (allowed s a)] (hr : M.Reachable s) :
    ∃ as s', (∀ a ∈ as, own a = true ∧ ok a) ∧ M.execUnder allowed s as = some s' ∧
      ∀ a, own a = true → ok a → allowed s' a → M.step s' a = none := by
  -- by induction on the units that are left
  induction hc : cost s using Nat.strong_induction_on generalizing s with
  | _ c ih =>
      by_cases hq : ∀ a, own a = true → ok a → allowed s a → M.step s a = none
      · exact ⟨[], s, by simp, rfl, hq⟩
      · simp only [not_forall] at hq
        obtain ⟨a, hown, hok, hallowed, hne⟩ := hq
        obtain ⟨t, hst⟩ := Option.ne_none_iff_exists'.mp hne
        have hpay := hp.pays hr hok hst
        simp only [hown, Bool.toNat_true, hgain a hown] at hpay
        obtain ⟨as, s', hall, he, hq'⟩ := ih (cost t) (by omega) (hr.step hst) rfl
        refine ⟨a :: as, s', ?_, ?_, hq'⟩
        · intro b hb
          rcases List.mem_cons.mp hb with rfl | hb
          · exact ⟨hown, hok⟩
          · exact hall b hb
        · simp only [execUnder, if_pos hallowed, hst]
          exact he

theorem Potential.exists_quiescent (hp : M.Potential ok own gain cost)
    (hgain : ∀ a, own a = true → gain a = 0) (hr : M.Reachable s) :
    ∃ as s', (∀ a ∈ as, own a = true ∧ ok a) ∧ M.exec s as = some s' ∧
      ∀ a, own a = true → ok a → M.step s' a = none := by
  obtain ⟨as, s', hall, he, hq⟩ := hp.exists_rest hgain (fun _ _ => True) hr
  exact ⟨as, s', hall, exec_of_execUnder he, fun a hown hok => hq a hown hok trivial⟩

end TransitionSystem

/-! ### Sums of numbers of steps -/

/-- A list without one of its elements. -/
theorem sum_map_eraseIdx {α : Type*} (f : α → Nat) {l : List α} {i : Nat} {x : α}
    (hx : l[i]? = some x) : f x + ((l.eraseIdx i).map f).sum = (l.map f).sum := by
  obtain ⟨hi, rfl⟩ := List.getElem?_eq_some_iff.mp hx
  have hperm := (List.getElem_cons_eraseIdx_perm hi).map f
  simpa only [List.map_cons, List.sum_cons] using hperm.sum_nat

/-- A list with another element in one of its places. -/
theorem sum_map_set {α : Type*} (f : α → Nat) {l : List α} {i : Nat} {x : α} (y : α)
    (hx : l[i]? = some x) : ((l.set i y).map f).sum + f x = (l.map f).sum + f y := by
  have hi : i < l.length := (List.getElem?_eq_some_iff.mp hx).1
  have hperm := (List.set_perm_cons_eraseIdx hi y).map f
  have hset := hperm.sum_nat
  have herase := sum_map_eraseIdx f hx
  simp only [List.map_cons, List.sum_cons] at hset
  omega

theorem sum_map_le_mul {α : Type*} {f g : α → Nat} {k : Nat} {l : List α}
    (h : ∀ x ∈ l, f x ≤ k * g x) : (l.map f).sum ≤ k * (l.map g).sum := by
  induction l with
  | nil => simp
  | cons x l ih =>
      have hx := h x List.mem_cons_self
      have hl := ih fun y hy => h y (List.mem_cons_of_mem x hy)
      rw [List.map_cons, List.map_cons, List.sum_cons, List.sum_cons, Nat.mul_add]
      omega

theorem sum_map_le_length {α : Type*} {f : α → Nat} {k : Nat} {l : List α}
    (h : ∀ x ∈ l, f x ≤ k) : (l.map f).sum ≤ k * l.length := by
  have hle := sum_map_le_mul (g := fun _ => 1) (k := k) (l := l) (by simpa using h)
  simpa only [List.map_const', List.sum_replicate_nat, Nat.mul_one] using hle

theorem sum_map_ite {α : Type*} (p : α → Bool) (k : Nat) (l : List α) :
    (l.map fun a => if p a then k else 0).sum = k * l.countP p := by
  induction l with
  | nil => rfl
  | cons a l ih =>
      rw [List.map_cons, List.sum_cons, List.countP_cons, ih]
      cases p a <;> simp [Nat.mul_add, Nat.add_comm]

/-- A sum over a range. -/
theorem sum_range_add_le {f g : Nat → Nat} {n i k l : Nat} (hi : i < n) (hpay : g i + k ≤ f i + l)
    (hothers : ∀ j, j ≠ i → g j = f j) :
    ∑ j ∈ range n, g j + k ≤ ∑ j ∈ range n, f j + l := by
  have hmem : i ∈ range n := mem_range.mpr hi
  have hrest : ∑ j ∈ (range n).erase i, g j = ∑ j ∈ (range n).erase i, f j := by
    refine sum_congr rfl ?_
    intro j hj
    exact hothers j (ne_of_mem_erase hj)
  rw [← add_sum_erase _ g hmem, ← add_sum_erase _ f hmem, hrest]
  omega

end AsioStudy
